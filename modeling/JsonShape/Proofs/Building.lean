import JsonShape.Schema.WellFormed
import Mathlib.Data.List.Induction

/-!
# Building — the schemas that builder calls reach

`Schema.Built` follows the builders call by call: a kind, an array of a built
schema, a record grown field by field, a union grown by `member` and
`variant`, a member made around a body. `Schema.built_iff_wellFormed` says
that these are the well-formed schemas and no others, so the invariant that
the builders keep is all there is to know about what they make.
-/

namespace JsonShape

mutual

/-- A schema made by builder calls. -/
inductive Schema.Built : Schema → Prop
  | primitive (kind : Primitive) : Schema.Built (.primitive kind)
  | array {element : Schema} : Schema.Built element → Schema.Built (.array element)
  | object {layer : Layer} : Layer.Built layer → Schema.Built (.object layer)

/-- A layer made by builder calls. -/
inductive Layer.Built : Layer → Prop
  | empty : Layer.Built (.record .empty)
  | field {r : Record} {s : Schema} (name : String) :
      Layer.Built (.record r) → Schema.Built s → Layer.Built (.record (r.field name s))
  | on (discriminator : String) : Layer.Built (.union (.on discriminator))
  | member {u : Union} {body : Layer} (tag : Tag) :
      Layer.Built (.union u) → Layer.Built body →
        Layer.Built (.union (u.member tag body))
  | variant {u : Union} {m : Member} :
      Layer.Built (.union u) → Layer.Built (.member m) →
        Layer.Built (.union (u.variant m))
  | make {body : Layer} (discriminator : String) (tag : Tag) :
      Layer.Built body → Layer.Built (.member (.make discriminator tag body))

end

/-! ## What is built is well-formed -/

mutual

theorem Schema.Built.wellFormed : ∀ {s : Schema}, s.Built → s.WellFormed
  | _, .primitive _ => trivial
  | _, .array h => h.wellFormed
  | _, .object h => h.wellFormed

theorem Layer.Built.wellFormed : ∀ {l : Layer}, l.Built → l.WellFormed
  | _, .empty => Record.wellFormed_empty
  | _, .field name hr hs => Record.wellFormed_field hr.wellFormed hs.wellFormed name
  | _, .on discriminator => Union.wellFormed_on discriminator
  | _, .member tag hu hb => Union.wellFormed_member hu.wellFormed hb.wellFormed tag
  | _, .variant hu hm =>
      Union.wellFormed_variant hu.wellFormed (Layer.wellFormed_member.mp hm.wellFormed)
  | _, .make discriminator tag hb =>
      Member.wellFormed_make hb.wellFormed discriminator tag

end

/-! ## What is well-formed can be built -/

/-- Declaring the fields in their order builds the record. -/
theorem Record.built_of_nodup {fields : List (String × Schema)}
    (hkeys : (Entries.keys fields).Nodup)
    (hs : ∀ name s, (name, s) ∈ fields → s.Built) : (Layer.record ⟨fields⟩).Built := by
  induction fields using List.reverseRecOn with
  | nil => exact .empty
  | append_singleton before f ih =>
      obtain ⟨name, s⟩ := f
      obtain ⟨hbefore, hnew⟩ := Entries.nodup_keys_concat hkeys
      -- the last name is new, so declaring it puts it at the end
      have hput : Record.field ⟨before⟩ name s = ⟨before ++ [(name, s)]⟩ :=
        congrArg Record.mk (Entries.put_of_not_mem hnew s)
      rw [← hput]
      exact .field name (ih hbefore fun n t h => hs n t (by simp [h]))
        (hs name s (by simp))

/-- Adding the members in their order builds the union. -/
theorem Union.built_of_nodup {d : String} {members : List (String × Member)}
    (hkeys : (Entries.keys members).Nodup)
    (hm : ∀ key m, (key, m) ∈ members → key = m.value ∧ (Layer.member m).Built) :
    (Layer.union ⟨d, members⟩).Built := by
  induction members using List.reverseRecOn with
  | nil => exact .on d
  | append_singleton before e ih =>
      obtain ⟨key, m⟩ := e
      obtain ⟨hbefore, hnew⟩ := Entries.nodup_keys_concat hkeys
      obtain ⟨hkey, hmember⟩ := hm key m (by simp)
      have hput : Union.variant ⟨d, before⟩ m = ⟨d, before ++ [(key, m)]⟩ := by
        subst hkey
        exact congrArg (Union.mk d) (Entries.put_of_not_mem hnew m)
      rw [← hput]
      exact .variant (ih hbefore fun k n h => hm k n (by simp [h])) hmember

/-- A value is the text of a tag, so any member can be made. -/
theorem Member.built {m : Member} (h : m.body.Built) : (Layer.member m).Built := by
  obtain ⟨d, value, body⟩ := m
  exact .make d (.string value) h

theorem built_of_wellFormed : LayeredCases (fun s => s.WellFormed → s.Built)
    (fun l => l.WellFormed → l.Built) where
  primitive kind _ := .primitive kind
  array _ ih h := .array (ih h)
  object _ ih h := .object (ih h)
  record r ih h := by
    rw [Layer.wellFormed_record] at h
    obtain ⟨fields⟩ := r
    exact Record.built_of_nodup h.1 fun name s hm => ih name s hm (h.2 name s hm)
  union u ih h := by
    rw [Layer.wellFormed_union] at h
    obtain ⟨d, members⟩ := u
    refine Union.built_of_nodup h.1 fun key m hm => ?_
    obtain ⟨hkey, hbody⟩ := h.2 key m hm
    exact ⟨hkey, (ih key m hm).2 (Layer.wellFormed_member.mpr hbody)⟩
  member m ih h := Member.built (ih (Layer.wellFormed_member.mp h))

/-- Builder calls reach the well-formed schemas and no others. -/
theorem Schema.built_iff_wellFormed {s : Schema} : s.Built ↔ s.WellFormed :=
  ⟨Schema.Built.wellFormed, Schema.of_cases built_of_wellFormed s⟩

theorem Layer.built_iff_wellFormed {l : Layer} : l.Built ↔ l.WellFormed :=
  ⟨Layer.Built.wellFormed, Layer.of_cases built_of_wellFormed l⟩

instance (s : Schema) : Decidable s.Built :=
  decidable_of_iff _ Schema.built_iff_wellFormed.symm

instance (l : Layer) : Decidable l.Built :=
  decidable_of_iff _ Layer.built_iff_wellFormed.symm

/-! ## A schema with layers -/

/-- What a dashed line says of its gaps; it has no title. -/
def Record.dashes : Record :=
  (Record.empty.field "gaps" (.array (.primitive .number))).field "title"
    (.primitive .undefined)

/-- What a circle has. -/
def Record.circle : Record :=
  Record.empty.field "radius" (.primitive .number)

/-- A circle with its radius, or a line. How a line is described depends on
its style, so the body of that member is a union again. -/
def Schema.drawing : Schema :=
  let line := (Union.on "style").member (.string "dashed") (.record .dashes)
  .object (.union
    (((Union.on "kind").member (.string "circle") (.record .circle)).member
    (.string "line") (.union line)))

example : Schema.drawing.Built := by decide

/-- A dashed line with these gaps. -/
def Value.dashedLine (gaps : List Value) : Value :=
  .object [("style", .string "dashed"), ("gaps", .array gaps), ("kind", .string "line")]

end JsonShape
