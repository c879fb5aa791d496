import JsonShape.Proofs.Descent
import JsonShape.Schema.Layers

/-!
# Coherence — a failure's texts fit together

The message of a failure repeats what the failure expected and what it got, in
the words of its kind. What it expected is the name of a kind or of a container,
or it is read off a union or a member of the schema. Texts follow from mismatches,
so it is shown which mismatches a descent can end in: `Mismatch.ArisesIn` says
what each of them takes from the schema, wherever in it the descent ends.
-/

namespace JsonShape

/-! ## Where the layers of one object come from -/

/-- A layer that is applied to an object occurs in the schema with all its layers,
unless it is a member that a union of the schema has chosen. -/
theorem occurs_of_applied :
    LayeredCases (fun _ => True) (fun layer => ∀ entries, ∀ k ∈ layer.applied entries,
      (∀ l ∈ k.layers, l ∈ layer.layers) ∨
        ∃ u key m, k = .member m ∧ .union u ∈ layer.layers ∧ (key, m) ∈ u.members) where
  primitive _ := trivial
  array _ _ := trivial
  object _ _ := trivial
  record r _ entries k hk := by
    rw [Layer.applied_record, List.mem_singleton] at hk
    subst hk
    exact .inl fun _ hl => hl
  union u ih entries k hk := by
    rcases Layer.mem_applied_union.mp hk with rfl | ⟨tag, m, _, hget, hk⟩
    · exact .inl fun _ hl => hl
    · have hm : (tag, m) ∈ u.members := Entries.mem_of_lookup hget
      rcases Layer.mem_applied_member.mp hk with rfl | ⟨_, hk⟩
      · exact .inr ⟨u, tag, m, rfl, Layer.self_mem_layers _, hm⟩
      · rcases (ih tag m hm).1 entries k hk with hsub | ⟨w, key, n, hkn, hw, hn⟩
        · exact .inl fun l hl => Union.layers_of_mem hm l (hsub l hl)
        · exact .inr ⟨w, key, n, hkn, Union.layers_of_mem hm _ hw, hn⟩
  member m ih entries k hk := by
    rcases Layer.mem_applied_member.mp hk with rfl | ⟨_, hk⟩
    · exact .inl fun _ hl => hl
    · rcases ih entries k hk with hsub | ⟨w, key, n, hkn, hw, hn⟩
      · exact .inl fun l hl => m.layers_of_body l (hsub l hl)
      · exact .inr ⟨w, key, n, hkn, m.layers_of_body _ hw, hn⟩

section

variable {layer : Layer} {entries : List (String × Value)}

theorem Layer.layers_of_applied_record {r : Record}
    (h : .record r ∈ layer.applied entries) :
    ∀ l ∈ (Layer.record r).layers, l ∈ layer.layers := by
  rcases Layer.of_cases occurs_of_applied layer entries _ h with hsub | ⟨_, _, _, he, _⟩
  · exact hsub
  · cases he

theorem Schema.hasUnion_of_applied {u : Union} (h : .union u ∈ layer.applied entries) :
    (Schema.object layer).HasUnion u := by
  rcases Layer.of_cases occurs_of_applied layer entries _ h with hsub | ⟨_, _, _, he, _⟩
  · exact hsub _ (Layer.self_mem_layers _)
  · cases he

theorem Schema.hasMember_of_applied {m : Member}
    (h : .member m ∈ layer.applied entries) :
    (Schema.object layer).HasMember m := by
  rcases Layer.of_cases occurs_of_applied layer entries _ h with
    hsub | ⟨u, key, n, he, hu, hn⟩
  · exact .inl (hsub _ (Layer.self_mem_layers _))
  · cases he
    exact .inr ⟨u, key, hu, hn⟩

end

/-! ## What a mismatch takes from the schema -/

/-- The mismatch may be found by the schema: the value that it is about is there
unless it is missing, and tags are those of a union or a member of the schema. -/
inductive Mismatch.ArisesIn (schema : Schema) : Mismatch → Prop
  | missing : ArisesIn schema .missing
  | wrongType {kind : Primitive} {type : DynType} : type ≠ .primitive .undefined →
      ArisesIn schema (.wrongType kind type)
  | wrongShape {shape : Container} {type : DynType} : type ≠ .primitive .undefined →
      ArisesIn schema (.wrongShape shape type)
  | unknownVariant {u : Union} {tag : String} : schema.HasUnion u → u.get? tag = none →
      ArisesIn schema (.unknownVariant u.memberKeys tag)
  | wrongTag {m : Member} {tag : String} : schema.HasMember m →
      ArisesIn schema (.wrongTag m.value tag)

/-- What arises in a part arises in the whole. -/
theorem Mismatch.ArisesIn.of_part {whole part : Schema} {m : Mismatch}
    (h : m.ArisesIn part) (hsub : ∀ l ∈ part.layers, l ∈ whole.layers) :
    m.ArisesIn whole := by
  cases h with
  | missing => exact .missing
  | wrongType htype => exact .wrongType htype
  | wrongShape htype => exact .wrongShape htype
  | unknownVariant hu hget => exact .unknownVariant (hsub _ hu) hget
  | wrongTag hm =>
      refine .wrongTag (hm.imp (hsub _) ?_)
      rintro ⟨u, key, hu, hmem⟩
      exact ⟨u, key, hsub _ hu, hmem⟩

/-- A tag that an applied layer refuses is refused by the schema. -/
theorem Layer.Refuses.arisesIn {layer l : Layer} {entries : List (String × Value)}
    {d : String} {m : Mismatch} (h : l.Refuses entries d m)
    (hl : l ∈ layer.applied entries) : m.ArisesIn (.object layer) := by
  cases h with
  | absent _ _ => exact .missing
  | notText _ _ _ => exact .wrongType (Value.dynType_ne_undefined _)
  | unknown _ hget => exact .unknownVariant (Schema.hasUnion_of_applied hl) hget
  | other _ _ => exact .wrongTag (Schema.hasMember_of_applied hl)

theorem Schema.Fails.arisesIn {s : Schema} {value? : Option Value}
    {below : List Segment} {m : Mismatch} (h : s.Fails value? below m) :
    m.ArisesIn s := by
  induction h with
  | absent _ => exact .missing
  | notKind _ => exact .wrongType (Value.dynType_ne_undefined _)
  | notArray _ => exact .wrongShape (Value.dynType_ne_undefined _)
  | notObject _ => exact .wrongShape (Value.dynType_ne_undefined _)
  | item _ _ _ ih => exact ih.of_part fun _ hl => hl
  | tag hl hrefuses => exact hrefuses.arisesIn hl
  | field hr hsplit _ _ ih =>
      have hs :=
        Record.layers_of_mem (hsplit ▸ List.mem_append_right _ List.mem_cons_self)
      exact ih.of_part fun l hl => Layer.layers_of_applied_record hr l (hs l hl)

/-! ## Texts -/

/-- The failure says what it expected and what it got, each on its own and in its
message. -/
structure Failure.Says (failure : Failure) (lead expected got : String) : Prop where
  message : failure.message = lead ++ expected ++ ", got " ++ got
  got : failure.got = some got
  expected : failure.expected = some expected

/-- The texts of a failure follow from its kind, from what it expected and from
what it got. Kinds, containers and types are named by their words, of which
`undefined` is never what a container is found to be; what was expected of a tag
is said by a union that does not know the tag, or by a member, of the schema. -/
def Failure.CoherentIn (schema : Schema) (failure : Failure) : Prop :=
  match failure.kind with
  | .missing =>
      failure.message = "missing" ∧ failure.expected = none ∧
        failure.got = some "undefined"
  | .typeMismatch =>
      ∃ expected got, failure.Says "expected a " expected got ∧
        expected ∈ ["undefined", "null", "string", "number", "boolean"]
  | .shapeMismatch =>
      ∃ expected got, failure.Says "expected an " expected got ∧
        expected ∈ ["array", "object"] ∧
        got ∈ ["null", "string", "number", "boolean", "array", "object"]
  | .unknownVariant =>
      ∃ u got, schema.HasUnion u ∧ u.get? got = none ∧
        failure.Says "expected one of " (String.intercalate " | " u.memberKeys) got
  | .discriminatorMismatch =>
      ∃ m got, schema.HasMember m ∧ failure.Says "expected " m.value got

theorem Primitive.name_mem (kind : Primitive) :
    kind.name ∈ ["undefined", "null", "string", "number", "boolean"] := by
  cases kind <;> decide

theorem Container.name_mem (shape : Container) : shape.name ∈ ["array", "object"] := by
  cases shape <;> decide

theorem DynType.name_mem {type : DynType} (h : type ≠ .primitive .undefined) :
    type.name ∈ ["null", "string", "number", "boolean", "array", "object"] := by
  rcases type with kind | shape
  · cases kind with
    | undefined => exact absurd rfl h
    | _ => decide
  · cases shape <;> decide

theorem Mismatch.ArisesIn.coherentIn {s : Schema} {m : Mismatch} (h : m.ArisesIn s)
    (path : Path) : (m.failureAt path).CoherentIn s := by
  cases h with
  | missing => exact ⟨rfl, rfl, rfl⟩
  | wrongType _ => exact ⟨_, _, ⟨rfl, rfl, rfl⟩, Primitive.name_mem _⟩
  | wrongShape htype =>
      exact ⟨_, _, ⟨rfl, rfl, rfl⟩, Container.name_mem _, DynType.name_mem htype⟩
  | unknownVariant hu hget => exact ⟨_, _, hu, hget, rfl, rfl, rfl⟩
  | wrongTag hm => exact ⟨_, _, hm, rfl, rfl, rfl⟩

/-- Whatever failure validation reports, its texts fit together and with the
schema. -/
theorem Schema.failure_is_coherent {s : Schema} {value? : Option Value} {path : Path}
    {e : Failure} (h : s.check value? path = .error e) : e.CoherentIn s := by
  obtain ⟨below, m, hfails, rfl⟩ := Schema.fails_of_check h
  exact hfails.arisesIn.coherentIn _

/-- The document is refused with the failure, and the failure is coherent. -/
def Refusal.IsCoherent (r : Refusal) : Prop :=
  r.schema.check (some r.document) .root = .error r.failure ∧
    r.failure.CoherentIn r.schema

theorem Schema.refused_drawings_are_coherent :
    (Refusal.ofKind .missing).IsCoherent ∧ (Refusal.ofKind .typeMismatch).IsCoherent ∧
      (Refusal.ofKind .shapeMismatch).IsCoherent ∧
      (Refusal.ofKind .unknownVariant).IsCoherent ∧
      (Refusal.ofKind .discriminatorMismatch).IsCoherent := by
  have hcoherent : ∀ kind, (Refusal.ofKind kind).IsCoherent := fun kind =>
    ⟨Refusal.check_ofKind kind, failure_is_coherent (Refusal.check_ofKind kind)⟩
  exact ⟨hcoherent _, hcoherent _, hcoherent _, hcoherent _, hcoherent _⟩

end JsonShape
