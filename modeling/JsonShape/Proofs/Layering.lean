import JsonShape.Validation.Selection

/-!
# Layering — the layers applied to one object

Equations for `Layer.applied` in terms of `List.lookup`. An object's tags
decide which layers are applied to it, so objects with the same tags have the
same layers.
-/

namespace JsonShape

theorem tagAt_eq_some_iff {entries : List (String × Value)} {d tag : String} :
    tagAt entries d = some tag ↔ entries.lookup d = some (.string tag) := by
  rw [tagAt]
  rcases entries.lookup d with _ | v
  · simp
  · cases v <;> simp [Value.text?]

namespace Layer

theorem applied_record (r : Record) (entries : List (String × Value)) :
    (Layer.record r).applied entries = [.record r] := by
  cases r
  rfl

theorem applied_union (u : Union) (entries : List (String × Value)) :
    (Layer.union u).applied entries =
      .union u :: match (tagAt entries u.discriminator).bind u.get? with
        | some m => (Layer.member m).applied entries
        | none => [] := by
  obtain ⟨d, members⟩ := u
  rw [applied]
  cases htag : tagAt entries d with
  | none => rfl
  | some tag =>
      simp only [Union.appliedSelected_eq, Option.bind_some, Union.get?]
      cases members.lookup tag <;> rfl

theorem applied_member (m : Member) (entries : List (String × Value)) :
    (Layer.member m).applied entries =
      .member m ::
        if tagAt entries m.discriminator = some m.value then m.body.applied entries
        else [] := by
  cases m
  rfl

/-- A layer is the first of those that are applied. -/
theorem self_mem_applied (l : Layer) (entries : List (String × Value)) :
    l ∈ l.applied entries := by
  rcases l with r | u | m
  · simp [applied_record]
  · simp [applied_union]
  · simp [applied_member]

/-- What is applied by a union is the union itself, or applied by the member
that the tag selects. -/
theorem mem_applied_union {u : Union} {entries : List (String × Value)} {k : Layer} :
    k ∈ (Layer.union u).applied entries ↔
      k = .union u ∨ ∃ tag m, entries.lookup u.discriminator = some (.string tag) ∧
        u.get? tag = some m ∧ k ∈ (Layer.member m).applied entries := by
  rw [applied_union, List.mem_cons]
  refine or_congr_right ?_
  cases hm : (tagAt entries u.discriminator).bind u.get? with
  | none =>
      refine iff_of_false List.not_mem_nil ?_
      rintro ⟨tag, m, htag, hget, _⟩
      rw [tagAt_eq_some_iff.mpr htag, Option.bind_some, hget] at hm
      cases hm
  | some m =>
      obtain ⟨tag, htag, hget⟩ := Option.bind_eq_some_iff.mp hm
      constructor
      · exact fun hk => ⟨tag, m, tagAt_eq_some_iff.mp htag, hget, hk⟩
      · rintro ⟨tag', m', htag', hget', hk⟩
        rw [tagAt_eq_some_iff.mpr htag', Option.bind_some, hget'] at hm
        cases hm
        exact hk

theorem mem_applied_member {m : Member} {entries : List (String × Value)} {k : Layer} :
    k ∈ (Layer.member m).applied entries ↔
      k = .member m ∨ entries.lookup m.discriminator = some (.string m.value) ∧
        k ∈ m.body.applied entries := by
  rw [applied_member, List.mem_cons, ← tagAt_eq_some_iff]
  refine or_congr_right ?_
  split
  · rename_i htag
    exact (and_iff_right htag).symm
  · rename_i htag
    exact iff_of_false List.not_mem_nil fun h => htag h.1

/-- The layers of the member that the tag selects. -/
theorem applied_union_of_get? {u : Union} {entries : List (String × Value)}
    {tag : String} {m : Member}
    (htag : entries.lookup u.discriminator = some (.string tag))
    (hget : u.get? tag = some m) :
    (Layer.union u).applied entries = .union u :: (Layer.member m).applied entries := by
  rw [applied_union, tagAt_eq_some_iff.mpr htag]
  simp [hget]

/-- The layers of the body of a member whose tag fits. -/
theorem applied_member_of_tag {m : Member} {entries : List (String × Value)}
    (htag : entries.lookup m.discriminator = some (.string m.value)) :
    (Layer.member m).applied entries = .member m :: m.body.applied entries := by
  rw [applied_member, if_pos (tagAt_eq_some_iff.mpr htag)]

end Layer

end JsonShape
