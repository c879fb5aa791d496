import JsonShape.Schema.Builder

/-!
# Schema — what building guarantees

The fields of a record and the keys of a union are distinct, and a union's
key is the value of the member under it, at every depth. The builders keep
this, so every schema that was built has it.
-/

namespace JsonShape

mutual

/-- Distinct names and true keys at every depth. -/
def Schema.WellFormed : Schema → Prop
  | .primitive _ => True
  | .array element => element.WellFormed
  | .object layer => layer.WellFormed

def Layer.WellFormed : Layer → Prop
  | .record ⟨fields⟩ => (Entries.keys fields).Nodup ∧ Record.FieldsWellFormed fields
  | .union ⟨_, members⟩ =>
      (Entries.keys members).Nodup ∧ Union.MembersWellFormed members
  | .member ⟨_, _, body⟩ => body.WellFormed

def Record.FieldsWellFormed : List (String × Schema) → Prop
  | [] => True
  | (_, schema) :: rest => schema.WellFormed ∧ Record.FieldsWellFormed rest

def Union.MembersWellFormed : List (String × Member) → Prop
  | [] => True
  | (key, ⟨_, value, body⟩) :: rest =>
      key = value ∧ body.WellFormed ∧ Union.MembersWellFormed rest

end

theorem Record.fieldsWellFormed_iff {fields : List (String × Schema)} :
    Record.FieldsWellFormed fields ↔ ∀ name s, (name, s) ∈ fields → s.WellFormed := by
  induction fields with
  | nil => simp [Record.FieldsWellFormed]
  | cons f rest ih =>
      obtain ⟨name, schema⟩ := f
      rw [Record.FieldsWellFormed, ih]
      constructor
      · rintro ⟨hs, hr⟩ n s h
        rcases List.mem_cons.mp h with e | h
        · rw [(Prod.mk.inj e).2]
          exact hs
        · exact hr n s h
      · exact fun h => ⟨h name schema List.mem_cons_self,
          fun n s hm => h n s (List.mem_cons_of_mem _ hm)⟩

theorem Union.membersWellFormed_iff {members : List (String × Member)} :
    Union.MembersWellFormed members ↔
      ∀ key m, (key, m) ∈ members → key = m.value ∧ m.body.WellFormed := by
  induction members with
  | nil => simp [Union.MembersWellFormed]
  | cons e rest ih =>
      obtain ⟨key, ⟨d, value, body⟩⟩ := e
      rw [Union.MembersWellFormed, ih]
      constructor
      · rintro ⟨hk, hb, hr⟩ k m h
        rcases List.mem_cons.mp h with e | h
        · rw [(Prod.mk.inj e).1, (Prod.mk.inj e).2]
          exact ⟨hk, hb⟩
        · exact hr k m h
      · intro h
        have hhead := h key ⟨d, value, body⟩ List.mem_cons_self
        exact ⟨hhead.1, hhead.2, fun k m hm => h k m (List.mem_cons_of_mem _ hm)⟩

theorem Layer.wellFormed_record {r : Record} :
    (Layer.record r).WellFormed ↔
      (Entries.keys r.fields).Nodup ∧ ∀ name s, (name, s) ∈ r.fields →
        s.WellFormed := by
  rw [← Record.fieldsWellFormed_iff]
  cases r
  exact Iff.rfl

theorem Layer.wellFormed_union {u : Union} :
    (Layer.union u).WellFormed ↔
      (Entries.keys u.members).Nodup ∧
        ∀ key m, (key, m) ∈ u.members → key = m.value ∧ m.body.WellFormed := by
  rw [← Union.membersWellFormed_iff]
  cases u
  exact Iff.rfl

theorem Layer.wellFormed_member {m : Member} :
    (Layer.member m).WellFormed ↔ m.body.WellFormed := by
  cases m
  exact Iff.rfl

/-! ## The parts of a well-formed layer -/

section

variable {r : Record} {u : Union} {name key : String} {s : Schema} {m : Member}

theorem Record.wellFormed_of_mem (hr : (Layer.record r).WellFormed)
    (hs : (name, s) ∈ r.fields) : s.WellFormed :=
  (Layer.wellFormed_record.mp hr).2 name s hs

theorem Record.get?_of_mem (hr : (Layer.record r).WellFormed)
    (hs : (name, s) ∈ r.fields) : r.get? name = some s :=
  (Entries.lookup_eq_some_iff (Layer.wellFormed_record.mp hr).1).mpr hs

theorem Union.wellFormed_of_mem (hu : (Layer.union u).WellFormed)
    (hm : (key, m) ∈ u.members) : (Layer.member m).WellFormed :=
  Layer.wellFormed_member.mpr ((Layer.wellFormed_union.mp hu).2 key m hm).2

theorem Union.get?_of_mem (hu : (Layer.union u).WellFormed)
    (hm : (key, m) ∈ u.members) : u.get? key = some m :=
  (Entries.lookup_eq_some_iff (Layer.wellFormed_union.mp hu).1).mpr hm

/-- In a union a member stands under its own value. -/
theorem Union.key_eq_value (hu : (Layer.union u).WellFormed)
    (hm : (key, m) ∈ u.members) : key = m.value :=
  ((Layer.wellFormed_union.mp hu).2 key m hm).1

end

/-! ## It can be tested -/

mutual

def Schema.decideWellFormed : (s : Schema) → Decidable s.WellFormed
  | .primitive _ => .isTrue trivial
  | .array element => element.decideWellFormed
  | .object layer => layer.decideWellFormed

def Layer.decideWellFormed : (l : Layer) → Decidable l.WellFormed
  | .record ⟨fields⟩ =>
      haveI := Record.decideFields fields
      inferInstanceAs (Decidable (_ ∧ _))
  | .union ⟨_, members⟩ =>
      haveI := Union.decideMembers members
      inferInstanceAs (Decidable (_ ∧ _))
  | .member ⟨_, _, body⟩ => body.decideWellFormed

def Record.decideFields : (fields : List (String × Schema)) →
    Decidable (Record.FieldsWellFormed fields)
  | [] => .isTrue trivial
  | (_, schema) :: rest =>
      haveI := schema.decideWellFormed
      haveI := Record.decideFields rest
      inferInstanceAs (Decidable (_ ∧ _))

def Union.decideMembers : (members : List (String × Member)) →
    Decidable (Union.MembersWellFormed members)
  | [] => .isTrue trivial
  | (_, ⟨_, _, body⟩) :: rest =>
      haveI := body.decideWellFormed
      haveI := Union.decideMembers rest
      inferInstanceAs (Decidable (_ ∧ _ ∧ _))

end

instance (s : Schema) : Decidable s.WellFormed := s.decideWellFormed

instance (l : Layer) : Decidable l.WellFormed := l.decideWellFormed

/-! ## The builders keep it -/

theorem Record.wellFormed_empty : (Layer.record .empty).WellFormed :=
  Layer.wellFormed_record.mpr ⟨List.nodup_nil, fun _ _ h => nomatch h⟩

theorem Record.wellFormed_field {r : Record} {s : Schema}
    (hr : (Layer.record r).WellFormed) (hs : s.WellFormed) (name : String) :
    (Layer.record (r.field name s)).WellFormed := by
  rw [Layer.wellFormed_record] at hr ⊢
  refine ⟨Entries.nodup_keys_put hr.1 name s, fun n t h => ?_⟩
  rcases Entries.mem_put h with e | h
  · rw [(Prod.mk.inj e).2]
    exact hs
  · exact hr.2 n t h

theorem Union.wellFormed_on (discriminator : String) :
    (Layer.union (.on discriminator)).WellFormed :=
  Layer.wellFormed_union.mpr ⟨List.nodup_nil, fun _ _ h => nomatch h⟩

theorem Union.wellFormed_variant {u : Union} {m : Member}
    (hu : (Layer.union u).WellFormed) (hm : m.body.WellFormed) :
    (Layer.union (u.variant m)).WellFormed := by
  rw [Layer.wellFormed_union] at hu ⊢
  refine ⟨Entries.nodup_keys_put hu.1 m.value m, fun k n h => ?_⟩
  rcases Entries.mem_put h with e | h
  · rw [(Prod.mk.inj e).1, (Prod.mk.inj e).2]
    exact ⟨rfl, hm⟩
  · exact hu.2 k n h

theorem Union.wellFormed_member {u : Union} {body : Layer}
    (hu : (Layer.union u).WellFormed) (hb : body.WellFormed) (tag : Tag) :
    (Layer.union (u.member tag body)).WellFormed :=
  Union.wellFormed_variant (m := Member.make u.discriminator tag body) hu hb

theorem Member.wellFormed_make {body : Layer} (hb : body.WellFormed)
    (discriminator : String) (tag : Tag) :
    (Layer.member (.make discriminator tag body)).WellFormed :=
  Layer.wellFormed_member.mpr hb

end JsonShape
