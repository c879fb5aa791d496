/-!
# Entries — keyed lists in insertion order

A record's fields, a union's members, a name table and a JSON object are all
lists of pairs whose order is part of the value. Reading a key is
`List.lookup`, the first pair with that key. Writing one is `put`: a key that
is there keeps its place and gets the new value, a new key goes to the end.

`put` keeps distinct keys distinct, and over distinct keys a lookup is
membership, so the order of the pairs no longer matters to a reader.
-/

namespace JsonShape

/-- A keyed list in insertion order. -/
abbrev Entries (α : Type) := List (String × α)

namespace Entries

variable {α : Type}

/-- The keys in order, each as often as it occurs. -/
def keys (entries : Entries α) : List String :=
  entries.map Prod.fst

/-- Replaces the first value under `key`, or appends the pair. -/
def put : Entries α → String → α → Entries α
  | [], key, value => [(key, value)]
  | (k, old) :: rest, key, value =>
      if k = key then (k, value) :: rest else (k, old) :: put rest key value

/-- Writes the pairs into the entries, one after another. -/
def putAll (entries : Entries α) (pairs : List (String × α)) : Entries α :=
  pairs.foldl (fun entries pair => put entries pair.1 pair.2) entries

/-- The entries that writing the pairs one after another leaves behind. -/
def ofList (pairs : List (String × α)) : Entries α :=
  putAll [] pairs

/-- Drops every pair under `key`. -/
def erase (entries : Entries α) (key : String) : Entries α :=
  entries.filter (·.1 ≠ key)

@[simp] theorem keys_nil : keys ([] : Entries α) = [] := rfl

@[simp] theorem keys_cons (e : String × α) (rest : Entries α) :
    keys (e :: rest) = e.1 :: keys rest := rfl

@[simp] theorem length_keys (entries : Entries α) :
    entries.keys.length = entries.length := by
  simp [keys]

/-! ## Lookup -/

theorem lookup_cons_ne {key k : String} (h : k ≠ key) (value : α) (rest : Entries α) :
    List.lookup key ((k, value) :: rest) = List.lookup key rest := by
  simp [List.lookup_cons, beq_false_of_ne (Ne.symm h)]

/-- What a lookup finds is an entry. -/
theorem mem_of_lookup {entries : Entries α} {key : String} {value : α}
    (h : entries.lookup key = some value) : (key, value) ∈ entries := by
  obtain ⟨before, after, hsplit, _⟩ := List.lookup_eq_some_iff.mp h
  rw [hsplit]
  exact List.mem_append_right before List.mem_cons_self

theorem lookup_isSome_iff {entries : Entries α} {key : String} :
    (entries.lookup key).isSome ↔ key ∈ entries.keys := by
  rw [List.lookup_isSome_iff, keys, List.mem_map]
  simp only [beq_iff_eq, @eq_comm _ key]

theorem lookup_eq_none_iff {entries : Entries α} {key : String} :
    entries.lookup key = none ↔ key ∉ entries.keys := by
  rw [← lookup_isSome_iff]
  cases entries.lookup key <;> simp

/-- Over distinct keys a lookup is membership. -/
theorem lookup_eq_some_iff {entries : Entries α} (h : entries.keys.Nodup) {key : String}
    {value : α} : entries.lookup key = some value ↔ (key, value) ∈ entries := by
  refine ⟨mem_of_lookup, fun hm => ?_⟩
  induction entries with
  | nil => cases hm
  | cons e rest ih =>
      obtain ⟨k, v⟩ := e
      rw [keys_cons, List.nodup_cons] at h
      rcases List.mem_cons.mp hm with he | hr
      · cases he
        exact List.lookup_cons_self
      · have hk : k ≠ key := by
          intro hk
          subst hk
          exact h.1 (List.mem_map.mpr ⟨(k, value), hr, rfl⟩)
        rw [lookup_cons_ne hk]
        exact ih h.2 hr

/-- There is one value under each of distinct keys. -/
theorem eq_of_mem {entries : Entries α} (h : entries.keys.Nodup) {key : String}
    {a b : α} (ha : (key, a) ∈ entries) (hb : (key, b) ∈ entries) : a = b := by
  rw [← lookup_eq_some_iff h] at ha hb
  exact Option.some.inj (ha.symm.trans hb)

/-- Over distinct keys the order of the entries does not matter to a reader. -/
theorem lookup_perm {a b : Entries α} (hp : a.Perm b) (h : a.keys.Nodup)
    (key : String) : a.lookup key = b.lookup key := by
  have hb : b.keys.Nodup := (hp.map Prod.fst).nodup h
  apply Option.ext
  intro value
  rw [lookup_eq_some_iff h, lookup_eq_some_iff hb]
  exact hp.mem_iff

/-! ## Put -/

theorem lookup_put_self (entries : Entries α) (key : String) (value : α) :
    (entries.put key value).lookup key = some value := by
  induction entries with
  | nil => exact List.lookup_cons_self
  | cons e rest ih =>
      obtain ⟨k, v⟩ := e
      by_cases hk : k = key
      · subst hk
        rw [put, if_pos rfl, List.lookup_cons_self]
      · rw [put, if_neg hk, lookup_cons_ne hk, ih]

theorem lookup_put_ne (entries : Entries α) {key other : String} (h : other ≠ key)
    (value : α) :
    (entries.put key value).lookup other = entries.lookup other := by
  induction entries with
  | nil => rw [put, lookup_cons_ne (Ne.symm h)]
  | cons e rest ih =>
      obtain ⟨k, v⟩ := e
      by_cases hk : k = key
      · subst hk
        rw [put, if_pos rfl, lookup_cons_ne (Ne.symm h), lookup_cons_ne (Ne.symm h)]
      · rw [put, if_neg hk]
        by_cases ho : k = other
        · subst ho
          rw [List.lookup_cons_self, List.lookup_cons_self]
        · rw [lookup_cons_ne ho, lookup_cons_ne ho, ih]

/-- What is found under distinct keys is found when a new key is written. -/
theorem lookup_put_of_mem {entries : Entries α} (h : entries.keys.Nodup)
    {key new : String} {value added : α} (hmem : (key, value) ∈ entries)
    (hnew : new ∉ entries.keys) :
    (entries.put new added).lookup key = some value := by
  have hne : key ≠ new := by
    rintro rfl
    exact hnew (List.mem_map.mpr ⟨(key, value), hmem, rfl⟩)
  rw [lookup_put_ne entries hne]
  exact (lookup_eq_some_iff h).mpr hmem

/-- A key that is there keeps its place. -/
theorem keys_put_of_mem {entries : Entries α} {key : String} (h : key ∈ entries.keys)
    (value : α) : (entries.put key value).keys = entries.keys := by
  induction entries with
  | nil => cases h
  | cons e rest ih =>
      obtain ⟨k, v⟩ := e
      by_cases hk : k = key
      · simp [put, hk]
      · have hr : key ∈ keys rest := (List.mem_cons.mp h).resolve_left (Ne.symm hk)
        simp [put, hk, ih hr]

/-- A new key goes to the end. -/
theorem put_of_not_mem {entries : Entries α} {key : String} (h : key ∉ entries.keys)
    (value : α) : entries.put key value = entries ++ [(key, value)] := by
  induction entries with
  | nil => rfl
  | cons e rest ih =>
      obtain ⟨k, v⟩ := e
      rw [keys_cons, List.mem_cons, not_or] at h
      rw [put, if_neg (Ne.symm h.1), ih h.2, List.cons_append]

theorem keys_put_of_not_mem {entries : Entries α} {key : String}
    (h : key ∉ entries.keys) (value : α) :
    (entries.put key value).keys = entries.keys ++ [key] := by
  rw [put_of_not_mem h]
  simp [keys]

/-- Writing keeps distinct keys distinct. -/
theorem nodup_keys_put {entries : Entries α} (h : entries.keys.Nodup) (key : String)
    (value : α) : (entries.put key value).keys.Nodup := by
  by_cases hm : key ∈ entries.keys
  · rw [keys_put_of_mem hm]
    exact h
  · rw [keys_put_of_not_mem hm, List.nodup_append]
    refine ⟨h, by simp, ?_⟩
    intro a ha b hb hab
    rw [List.mem_singleton.mp hb] at hab
    exact hm (hab ▸ ha)

/-- The last of distinct keys is not among the earlier ones. -/
theorem nodup_keys_concat {before : Entries α} {key : String} {value : α}
    (h : (keys (before ++ [(key, value)])).Nodup) :
    (keys before).Nodup ∧ key ∉ keys before := by
  have hsplit : keys (before ++ [(key, value)]) = keys before ++ [key] := by
    simp [keys]
  rw [hsplit, List.nodup_append] at h
  exact ⟨h.1, fun hm => h.2.2 key hm key (by simp) rfl⟩

/-- An entry after a write is the written one or an old one. -/
theorem mem_put {entries : Entries α} {key : String} {value : α} {e : String × α}
    (h : e ∈ entries.put key value) : e = (key, value) ∨ e ∈ entries := by
  induction entries with
  | nil => exact .inl (List.mem_singleton.mp h)
  | cons e' rest ih =>
      obtain ⟨k, v⟩ := e'
      by_cases hk : k = key
      · rw [put, if_pos hk] at h
        rcases List.mem_cons.mp h with he | hr
        · exact .inl (by rw [he, hk])
        · exact .inr (List.mem_cons_of_mem _ hr)
      · rw [put, if_neg hk] at h
        rcases List.mem_cons.mp h with he | hr
        · exact .inr (List.mem_cons.mpr (.inl he))
        · exact (ih hr).imp_right (List.mem_cons_of_mem _)

end Entries

/-! ## Sorting by a key -/

/-- Sorting by a key puts the keys in order. -/
theorem pairwise_mergeSort_key {α : Type} (key : α → String) (items : List α) :
    (items.mergeSort fun a b => decide (key a ≤ key b)).Pairwise
      fun a b => key a ≤ key b := by
  have trans : ∀ a b c : α,
      decide (key a ≤ key b) = true → decide (key b ≤ key c) = true →
      decide (key a ≤ key c) = true := fun a b c hab hbc =>
    decide_eq_true (String.le_trans (of_decide_eq_true hab) (of_decide_eq_true hbc))
  have total : ∀ a b : α,
      (decide (key a ≤ key b) || decide (key b ≤ key a)) = true := by
    intro a b
    rw [Bool.or_eq_true, decide_eq_true_eq, decide_eq_true_eq]
    exact String.le_total (key a) (key b)
  exact (List.pairwise_mergeSort trans total items).imp of_decide_eq_true

end JsonShape
