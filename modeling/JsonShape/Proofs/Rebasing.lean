import JsonShape.Proofs.Building
import JsonShape.Proofs.Outcome

/-!
# Rebasing — the verdict is the same wherever a value is found

Validation carries the path of a value down with it, makes it longer and puts
it into failures, but never decides anything by it. So a value that is found
below a longer path gets the same verdict, and in a failure only the path is
the longer one. `rebase` moves an outcome below a path; every part of a check
commutes with it, and sequencing does, so whole checks do.
-/

namespace JsonShape

/-- The outcome for a value of a document that is itself found at `base`. -/
def rebase {α : Type} (base : Path) (outcome : Except Failure α) : Except Failure α :=
  outcome.mapError (Failure.under base)

section

variable {α β : Type} {base : Path} {outcome : Except Failure α}

@[simp] theorem rebase_ok (base : Path) (a : α) : rebase base (.ok a) = .ok a := rfl

@[simp] theorem rebase_error (base : Path) (e : Failure) :
    rebase base (.error e : Except Failure α) = .error (e.under base) := rfl

theorem rebase_eq_ok_iff {a : α} : rebase base outcome = .ok a ↔ outcome = .ok a := by
  cases outcome <;> simp

theorem rebase_eq_error_iff {e : Failure} :
    rebase base outcome = .error e ↔
      ∃ inner, outcome = .error inner ∧ e = inner.under base := by
  cases outcome with
  | ok a => simp
  | error inner => simp [eq_comm]

/-- Steps that are rebased one by one are rebased together. -/
theorem rebase_bind (base : Path) (first : Except Failure α)
    (next : α → Except Failure β) :
    rebase base (first >>= next) =
      (rebase base first >>= fun a => rebase base (next a)) := by
  cases first <;> rfl

end

/-! ## Where a path is put into a failure -/

theorem Primitive.check_under (kind : Primitive) (value? : Option Value)
    (base path : Path) :
    kind.check value? (base ++ path) = rebase base (kind.check value? path) := by
  unfold Primitive.check
  cases kind.mismatch? value? <;> rfl

theorem requireArray_under (value? : Option Value) (base path : Path) :
    requireArray value? (base ++ path) = rebase base (requireArray value? path) := by
  unfold requireArray
  split <;> rfl

theorem requireObject_under (value? : Option Value) (base path : Path) :
    requireObject value? (base ++ path) = rebase base (requireObject value? path) := by
  unfold requireObject
  split <;> rfl

/-- A tag is missed in a field, so the path is one segment longer. -/
theorem readTag_under (entries : List (String × Value)) (d : String)
    (base path : Path) :
    readTag entries d (base ++ path) = rebase base (readTag entries d path) := by
  unfold readTag
  rw [← Path.append_field]
  split <;> rfl

/-! ## The two loops -/

theorem checkItems_under {check : Value → Path → Verdict} {base : Path}
    (h : ∀ item path, check item (base ++ path) = rebase base (check item path))
    (path : Path) (start : Nat) (items : List Value) :
    checkItems check (base ++ path) start items =
      rebase base (checkItems check path start items) := by
  induction items generalizing start with
  | nil => rfl
  | cons item rest ih =>
      rw [checkItems, checkItems, rebase_bind, ← Path.append_index, h, ih]

theorem Record.checkFields_under {fields : List (String × Schema)} {base : Path}
    (h : ∀ name s, (name, s) ∈ fields →
      ∀ value? path, s.check value? (base ++ path) = rebase base (s.check value? path))
    (entries : List (String × Value)) (path : Path) :
    Record.checkFields fields entries (base ++ path) =
      rebase base (Record.checkFields fields entries path) := by
  induction fields with
  | nil => rfl
  | cons f rest ih =>
      obtain ⟨name, s⟩ := f
      have hrest := ih fun n t hm => h n t (List.mem_cons_of_mem _ hm)
      rw [Record.checkFields, Record.checkFields, rebase_bind, ← Path.append_field,
        h name s List.mem_cons_self, hrest]

/-! ## Whole schemas -/

theorem check_under (base : Path) :
    LayeredCases
      (fun s => ∀ value? path, s.check value? (base ++ path) =
        rebase base (s.check value? path))
      (fun l => ∀ entries path,
        l.check entries (base ++ path) = rebase base (l.check entries path)) where
  primitive kind value? path := kind.check_under value? base path
  array element ih value? path := by
    rw [Schema.check_array, Schema.check_array, rebase_bind, requireArray_under]
    congr 1
    funext items
    exact checkItems_under (fun item here => ih (some item) here) path 0 items
  object layer ih value? path := by
    rw [Schema.check_object, Schema.check_object, rebase_bind, requireObject_under]
    congr 1
    funext entries
    exact ih entries path
  record r ih entries path := by
    rw [Layer.check_record, Layer.check_record]
    exact Record.checkFields_under ih entries path
  union u ih entries path := by
    rw [Layer.check_union, Layer.check_union, rebase_bind, readTag_under]
    congr 1
    funext tag
    cases hget : u.get? tag with
    | none => simp [Path.append_field]
    | some m =>
        -- the member judges the same object, at the same path
        exact (ih tag m (Entries.mem_of_lookup hget)).2 entries path
  member m ih entries path := by
    rw [Layer.check_member, Layer.check_member, Member.check_eq, Member.check_eq,
      rebase_bind, readTag_under]
    congr 1
    funext tag
    by_cases hv : tag = m.value
    · rw [if_pos hv, if_pos hv]
      exact ih entries path
    · rw [if_neg hv, if_neg hv]
      simp [Path.append_field]

theorem Schema.check_append (s : Schema) (value? : Option Value) (base path : Path) :
    s.check value? (base ++ path) = rebase base (s.check value? path) :=
  Schema.of_cases (check_under base) s value? path

/-- Below a longer path a value is accepted or rejected as before, and a
failure is the same one with the longer path in front of its own. So every
failure is that of the value as a whole document, found at the path where
judging began. -/
theorem Schema.check_rebased (s : Schema) (value? : Option Value) (base path : Path) :
    (s.check value? (base ++ path) = .ok () ↔ s.check value? path = .ok ()) ∧
      (∀ e, s.check value? (base ++ path) = .error e ↔
        ∃ inner, s.check value? path = .error inner ∧ e = inner.under base) ∧
      ∀ e, s.check value? path = .error e →
        path.segments <+: e.path.segments ∧
          ∃ whole, s.check value? .root = .error whole ∧ e = whole.under path := by
  rw [check_append]
  refine ⟨rebase_eq_ok_iff, fun e => rebase_eq_error_iff, fun e he => ?_⟩
  have hroot : rebase path (s.check value? .root) = .error e := by
    rw [← check_append, Path.append_root]
    exact he
  obtain ⟨whole, hwhole, rfl⟩ := rebase_eq_error_iff.mp hroot
  exact ⟨List.prefix_append _ _, whole, hwhole, rfl⟩

/-- A gap that is no number is reported alike in a drawing of its own, in the
field of a page and on the eighth page of a book. -/
theorem Schema.drawing_failure_rebased :
    let drawn := some (Value.dashedLine [.number 4 0, .null])
    let shape := Path.root.field "shape"
    let page := (Path.root.field "page").index 7
    let reported := (Mismatch.wrongType .number (.primitive .null)).failureAt
      ((shape.field "gaps").index 1)
    Schema.drawing.check drawn shape = .error reported ∧
      Schema.drawing.check drawn (page ++ shape) = .error (reported.under page) ∧
      ∃ whole, Schema.drawing.check drawn .root = .error whole ∧
        reported = whole.under shape := by
  intro drawn shape page reported
  have hshape : Schema.drawing.check drawn shape = .error reported := by decide
  obtain ⟨_, hbelow, hwhole⟩ := check_rebased Schema.drawing drawn page shape
  exact ⟨hshape, (hbelow _).mpr ⟨reported, hshape, rfl⟩, (hwhole _ hshape).2⟩

end JsonShape
