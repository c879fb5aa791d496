import JsonShape.Proofs.Descent
import JsonShape.Validation.Exhaustive

/-!
# First mismatch — failing fast loses only what comes later

Validation and the list of all mismatches go through a document in the same
order, so what validation reports is the head of the list: at every depth,
whatever the layers.
-/

namespace JsonShape

/-- The verdict on a document with these mismatches, in their order. -/
def Verdict.first : List Failure → Verdict
  | [] => .ok ()
  | e :: _ => .error e

/-- Mismatches that come later count only if there are none before. -/
theorem Verdict.first_append (before after : List Failure) :
    Verdict.first (before ++ after) =
      (do Verdict.first before; Verdict.first after) := by
  cases before <;> rfl

/-! ## The loops -/

theorem checkItems_eq_first {check : Value → Path → Verdict}
    {list : Value → Path → List Failure}
    (h : ∀ item path, check item path = .first (list item path)) (path : Path)
    (items : List Value) (start : Nat) :
    checkItems check path start items =
      .first ((items.zipIdx start).flatMap
        fun item => list item.1 (path.index item.2)) := by
  induction items generalizing start with
  | nil => rfl
  | cons item rest ih =>
      rw [checkItems, List.zipIdx_cons, List.flatMap_cons, Verdict.first_append, h, ih]

theorem Record.checkFields_eq_first {fields : List (String × Schema)}
    (h : ∀ name s, (name, s) ∈ fields →
      ∀ value? path, s.check value? path = .first (s.mismatches value? path))
    (entries : List (String × Value)) (path : Path) :
    Record.checkFields fields entries path =
      .first (Record.fieldMismatches fields entries path) := by
  induction fields with
  | nil => rfl
  | cons f rest ih =>
      obtain ⟨name, s⟩ := f
      have hrest : Record.checkFields rest entries path =
          .first (Record.fieldMismatches rest entries path) := by
        apply ih
        intro n t hm
        exact h n t (List.mem_cons_of_mem _ hm)
      rw [Record.checkFields, Record.fieldMismatches, Verdict.first_append, hrest,
        h name s List.mem_cons_self]

/-! ## The mismatches of each layer -/

theorem Layer.mismatches_record (r : Record) (entries : List (String × Value))
    (path : Path) :
    (Layer.record r).mismatches entries path =
      Record.fieldMismatches r.fields entries path := by
  cases r
  rfl

theorem Layer.mismatches_union (u : Union) (entries : List (String × Value))
    (path : Path) :
    (Layer.union u).mismatches entries path =
      match entries.lookup u.discriminator with
      | none => [Mismatch.missing.failureAt (path.field u.discriminator)]
      | some (.string tag) =>
          match u.get? tag with
          | some m => (Layer.member m).mismatches entries path
          | none => [(Mismatch.unknownVariant u.memberKeys tag).failureAt
              (path.field u.discriminator)]
      | some value =>
          [(Mismatch.wrongType .string value.dynType).failureAt
            (path.field u.discriminator)] := by
  obtain ⟨d, members⟩ := u
  rw [mismatches]
  rcases entries.lookup d with _ | v
  · rfl
  · cases v with
    | string tag =>
        simp only [Union.selectedMismatches_eq, Union.get?]
        cases members.lookup tag <;> rfl
    | _ => rfl

theorem Layer.mismatches_member (m : Member) (entries : List (String × Value))
    (path : Path) :
    (Layer.member m).mismatches entries path =
      match entries.lookup m.discriminator with
      | none => [Mismatch.missing.failureAt (path.field m.discriminator)]
      | some (.string tag) =>
          if tag = m.value then m.body.mismatches entries path
          else [(Mismatch.wrongTag m.value tag).failureAt (path.field m.discriminator)]
      | some found =>
          [(Mismatch.wrongType .string found.dynType).failureAt
            (path.field m.discriminator)] := by
  cases m
  rfl

/-! ## Whole schemas -/

theorem check_eq_first :
    LayeredCases
      (fun s => ∀ value? path, s.check value? path = .first (s.mismatches value? path))
      (fun l => ∀ entries path, l.check entries path =
        .first (l.mismatches entries path)) where
  primitive kind value? path := by
    rw [Schema.check_primitive]
    cases value? with
    | none => cases kind <;> rfl
    | some value =>
        rw [Primitive.check_present, Schema.mismatches]
        split <;> rfl
  array element ih value? path := by
    -- without an array both stop at once, with the same single mismatch
    rw [Schema.check_array]
    rcases value? with _ | v
    · rfl
    · cases v with
      | array items =>
          exact checkItems_eq_first (fun item here => ih (some item) here) path items 0
      | _ => rfl
  object layer ih value? path := by
    rw [Schema.check_object]
    rcases value? with _ | v
    · rfl
    · cases v with
      | object entries => exact ih entries path
      | _ => rfl
  record r ih entries path := by
    rw [Layer.check_record, Layer.mismatches_record]
    exact Record.checkFields_eq_first ih entries path
  union u ih entries path := by
    -- both read the tag first, and only a known tag leads further
    rw [Layer.check_union, Layer.mismatches_union, readTag]
    rcases entries.lookup u.discriminator with _ | v
    · rfl
    · cases v with
      | string tag =>
          simp only [ok_bind]
          cases hget : u.get? tag with
          | none => rfl
          | some m => exact (ih tag m (Entries.mem_of_lookup hget)).2 entries path
      | _ => rfl
  member m ih entries path := by
    rw [Layer.check_member, Member.check_eq, Layer.mismatches_member, readTag]
    rcases entries.lookup m.discriminator with _ | v
    · rfl
    · cases v with
      | string tag =>
          simp only [ok_bind]
          by_cases hv : tag = m.value
          · simp only [if_pos hv]
            exact ih entries path
          · simp only [if_neg hv]
            rfl
      | _ => rfl

/-- What validation reports is the first of all mismatches, or nothing if
there are none. Everything that validation passes on the way down to it
conforms: the elements of smaller index and the fields declared earlier. -/
theorem Schema.check_eq_first_mismatch (s : Schema) (value? : Option Value)
    (path : Path) :
    s.check value? path = .first (s.mismatches value? path) ∧
      ∀ e, s.check value? path = .error e →
        ∃ below m, s.Fails value? below m ∧ e = m.failureAt (path ++ ⟨below⟩) :=
  ⟨Schema.of_cases check_eq_first s value? path, fun _ h => Schema.fails_of_check h⟩

/-- Of two gaps that are no numbers the one that comes first is reported. -/
theorem Schema.drawing_reports_first_gap :
    (Schema.drawing.mismatches (some (.dashedLine [.number 4 0, .null, .array []]))
        .root).length = 2 ∧
      ∃ below m,
        Schema.drawing.Fails
            (some (.dashedLine [.number 4 0, .null, .array []])) below m ∧
          (Mismatch.wrongType .number (.primitive .null)).failureAt
            ((Path.root.field "gaps").index 1) = m.failureAt (.root ++ ⟨below⟩) :=
  ⟨by decide, (check_eq_first_mismatch _ _ _).2 _ (by decide)⟩

end JsonShape
