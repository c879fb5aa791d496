import JsonShape.Validation.Basic

/-!
# Outcome — what each part of a check can answer

One lemma for success and one for failure at every place where validation
decides something: at the container it needs, at the tag it reads, in the two
loops, and at each shape of schema and layer. They say all that the part can
do, guards included, so that what is proved about whole checks needs the
equations of `Validation` no more.
-/

namespace JsonShape

/-! ## Sequencing -/

theorem ok_bind {α β : Type} (a : α) (next : α → Except Failure β) :
    (Except.ok a >>= next) = next a := rfl

theorem bind_eq_ok_iff {α β : Type} {first : Except Failure α}
    {next : α → Except Failure β} {b : β} :
    (first >>= next) = .ok b ↔ ∃ a, first = .ok a ∧ next a = .ok b := by
  constructor
  · intro h
    cases first with
    | error e => cases h
    | ok a => exact ⟨a, rfl, h⟩
  · rintro ⟨a, rfl, h⟩
    exact h

theorem bind_eq_error_iff {α β : Type} {first : Except Failure α}
    {next : α → Except Failure β} {e : Failure} :
    (first >>= next) = .error e ↔
      first = .error e ∨ ∃ a, first = .ok a ∧ next a = .error e := by
  constructor
  · intro h
    cases first with
    | error f =>
        cases h
        exact .inl rfl
    | ok a => exact .inr ⟨a, rfl, h⟩
  · rintro (rfl | ⟨a, rfl, h⟩)
    · rfl
    · exact h

/-! ## Kinds, containers and tags -/

theorem Primitive.check_absent (kind : Primitive) (path : Path) :
    kind.check none path =
      if kind = .undefined then .ok ()
      else .error (Mismatch.missing.failureAt path) := by
  cases kind <;> rfl

theorem Primitive.check_present (kind : Primitive) (value : Value) (path : Path) :
    kind.check (some value) path =
      if value.dynType = .primitive kind then .ok ()
      else .error ((Mismatch.wrongType kind value.dynType).failureAt path) := by
  by_cases h : value.dynType = .primitive kind <;>
    simp [Primitive.check, Primitive.mismatch?, h]

theorem Primitive.check_eq_ok_iff {kind : Primitive} {value? : Option Value}
    {path : Path} :
    kind.check value? path = .ok () ↔ DynType.of value? = .primitive kind := by
  cases value? with
  | none => cases kind <;> simp [Primitive.check_absent]
  | some value =>
      by_cases h : value.dynType = .primitive kind <;> simp [Primitive.check_present, h]

theorem Primitive.check_eq_error_iff {kind : Primitive} {value? : Option Value}
    {path : Path} {e : Failure} :
    kind.check value? path = .error e ↔
      (value? = none ∧ kind ≠ .undefined ∧ e = Mismatch.missing.failureAt path) ∨
        ∃ value, value? = some value ∧ value.dynType ≠ .primitive kind ∧
          e = (Mismatch.wrongType kind value.dynType).failureAt path := by
  cases value? with
  | none => cases kind <;> simp [Primitive.check_absent, eq_comm]
  | some value =>
      by_cases h : value.dynType = .primitive kind
      · simp [Primitive.check_present, h]
      · simp [Primitive.check_present, h, @eq_comm _ e]

theorem requireArray_eq_ok_iff {value? : Option Value} {path : Path}
    {items : List Value} :
    requireArray value? path = .ok items ↔ value? = some (.array items) := by
  rcases value? with _ | v
  · simp [requireArray]
  · cases v <;> simp [requireArray]

theorem requireArray_eq_error_iff {value? : Option Value} {path : Path} {e : Failure} :
    requireArray value? path = .error e ↔
      (value? = none ∧ e = Mismatch.missing.failureAt path) ∨
        ∃ value, value? = some value ∧ value.dynType ≠ .container .array ∧
          e = (Mismatch.wrongShape .array value.dynType).failureAt path := by
  rcases value? with _ | v
  · simp [requireArray, eq_comm]
  · cases v <;> simp [requireArray, Value.dynType, eq_comm]

theorem requireObject_eq_ok_iff {value? : Option Value} {path : Path}
    {entries : List (String × Value)} :
    requireObject value? path = .ok entries ↔ value? = some (.object entries) := by
  rcases value? with _ | v
  · simp [requireObject]
  · cases v <;> simp [requireObject]

theorem requireObject_eq_error_iff {value? : Option Value} {path : Path} {e : Failure} :
    requireObject value? path = .error e ↔
      (value? = none ∧ e = Mismatch.missing.failureAt path) ∨
        ∃ value, value? = some value ∧ value.dynType ≠ .container .object ∧
          e = (Mismatch.wrongShape .object value.dynType).failureAt path := by
  rcases value? with _ | v
  · simp [requireObject, eq_comm]
  · cases v <;> simp [requireObject, Value.dynType, eq_comm]

theorem readTag_eq_ok_iff {entries : List (String × Value)} {d tag : String}
    {path : Path} :
    readTag entries d path = .ok tag ↔ entries.lookup d = some (.string tag) := by
  rw [readTag]
  rcases entries.lookup d with _ | v
  · simp
  · cases v <;> simp

theorem readTag_eq_error_iff {entries : List (String × Value)} {d : String}
    {path : Path} {e : Failure} :
    readTag entries d path = .error e ↔
      (entries.lookup d = none ∧ e = Mismatch.missing.failureAt (path.field d)) ∨
        ∃ found, entries.lookup d = some found ∧ found.dynType ≠ .primitive .string ∧
          e = (Mismatch.wrongType .string found.dynType).failureAt (path.field d) := by
  rw [readTag]
  rcases entries.lookup d with _ | v
  · simp [eq_comm]
  · cases v <;> simp [Value.dynType, eq_comm]

/-! ## The two loops -/

/-- A loop over elements stops at the first one that fails; those before it
succeed. -/
theorem checkItems_eq_error {check : Value → Path → Verdict} {path : Path}
    {items : List Value} {start : Nat} {e : Failure}
    (h : checkItems check path start items = .error e) :
    ∃ i item, items[i]? = some item ∧ check item (path.index (start + i)) = .error e ∧
      ∀ j x, j < i → items[j]? = some x →
        check x (path.index (start + j)) = .ok () := by
  induction items generalizing start with
  | nil => cases h
  | cons item rest ih =>
      rw [checkItems, bind_eq_error_iff] at h
      rcases h with h | ⟨_, hitem, hrest⟩
      · exact ⟨0, item, rfl, h, fun j x hj => absurd hj (Nat.not_lt_zero j)⟩
      · obtain ⟨i, x, hx, hfail, hbefore⟩ := ih hrest
        have hshift : ∀ k, start + 1 + k = start + (k + 1) := fun k => by omega
        refine ⟨i + 1, x, hx, hshift i ▸ hfail, ?_⟩
        intro j y hj hy
        cases j with
        | zero => cases hy; exact hitem
        | succ j => exact hshift j ▸ hbefore j y (by omega) hy

/-- A loop over fields stops at the first one that fails; those declared
before it succeed. -/
theorem Record.checkFields_eq_error {fields : List (String × Schema)}
    {entries : List (String × Value)} {path : Path} {e : Failure}
    (h : Record.checkFields fields entries path = .error e) :
    ∃ before name s after, fields = before ++ (name, s) :: after ∧
      s.check (entries.lookup name) (path.field name) = .error e ∧
      ∀ n t, (n, t) ∈ before → t.check (entries.lookup n) (path.field n) = .ok () := by
  induction fields with
  | nil => cases h
  | cons f rest ih =>
      obtain ⟨name, s⟩ := f
      rw [Record.checkFields, bind_eq_error_iff] at h
      rcases h with h | ⟨_, hfield, hrest⟩
      · refine ⟨[], name, s, rest, rfl, h, ?_⟩
        intro n t hm
        cases hm
      · obtain ⟨before, n, t, after, hsplit, hfail, hbefore⟩ := ih hrest
        refine ⟨(name, s) :: before, n, t, after, by rw [hsplit]; rfl, hfail, ?_⟩
        intro k u hm
        rcases List.mem_cons.mp hm with hhead | hm
        · cases hhead; exact hfield
        · exact hbefore k u hm

/-! ## Schemas and layers that succeed -/

theorem Schema.check_array_eq_ok_iff {element : Schema} {value? : Option Value}
    {path : Path} :
    (Schema.array element).check value? path = .ok () ↔
      ∃ items, value? = some (.array items) ∧
        ∀ i item, items[i]? = some item →
          element.check (some item) (path.index i) = .ok () := by
  rw [Schema.check_array, bind_eq_ok_iff]
  simp only [requireArray_eq_ok_iff, checkItems_eq_ok_iff, Nat.zero_add]

theorem Schema.check_object_eq_ok_iff {layer : Layer} {value? : Option Value}
    {path : Path} :
    (Schema.object layer).check value? path = .ok () ↔
      ∃ entries, value? = some (.object entries) ∧
        layer.check entries path = .ok () := by
  rw [Schema.check_object, bind_eq_ok_iff]
  simp only [requireObject_eq_ok_iff]

theorem Layer.check_union_eq_ok_iff {u : Union} {entries : List (String × Value)}
    {path : Path} :
    (Layer.union u).check entries path = .ok () ↔
      ∃ tag m, entries.lookup u.discriminator = some (.string tag) ∧
        u.get? tag = some m ∧
        (Layer.member m).check entries path = .ok () := by
  rw [Layer.check_union, bind_eq_ok_iff]
  simp only [readTag_eq_ok_iff, Layer.check_member]
  refine exists_congr fun tag => ?_
  cases u.get? tag <;> simp

theorem Layer.check_member_eq_ok_iff {m : Member} {entries : List (String × Value)}
    {path : Path} :
    (Layer.member m).check entries path = .ok () ↔
      entries.lookup m.discriminator = some (.string m.value) ∧
        m.body.check entries path = .ok () := by
  rw [Layer.check_member, Member.check_eq, bind_eq_ok_iff]
  simp only [readTag_eq_ok_iff]
  constructor
  · rintro ⟨tag, htag, h⟩
    by_cases hv : tag = m.value
    · rw [if_pos hv] at h
      exact ⟨hv ▸ htag, h⟩
    · rw [if_neg hv] at h
      cases h
  · rintro ⟨htag, h⟩
    exact ⟨m.value, htag, by rw [if_pos rfl]; exact h⟩

end JsonShape
