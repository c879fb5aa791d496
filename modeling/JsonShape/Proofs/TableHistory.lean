import JsonShape.Proofs.Writing
import JsonShape.Registry.History

/-!
# Table history — a table holds the first registration of every name

`Table.Holds` ties a table to the list of what was registered in it: a name
stands for the schema of its first registration, and the names are there in the
order in which they first came. Serving a query keeps the tie and answers as
`Query.answer` says from the list alone.
-/

namespace JsonShape

/-! ## One more entry -/

namespace Entries

variable {α : Type}

/-- An entry at the end is found under its own key only, and only if it is the
first with that key. -/
theorem lookup_concat (entries : Entries α) (key other : String) (value : α) :
    List.lookup other (entries ++ [(key, value)]) =
      (entries.lookup other).or (if key = other then some value else none) := by
  rw [List.lookup_append]
  by_cases h : key = other
  · rw [if_pos h, h, List.lookup_cons_self]
  · rw [if_neg h, lookup_cons_ne h, List.lookup_nil]

theorem lookup_concat_of_known {entries : Entries α} {key : String}
    (h : (entries.lookup key).isSome) (value : α) (other : String) :
    List.lookup other (entries ++ [(key, value)]) = entries.lookup other := by
  rw [lookup_concat]
  by_cases ho : key = other
  · subst ho
    obtain ⟨first, hfirst⟩ := Option.isSome_iff_exists.mp h
    rw [hfirst, Option.some_or]
  · rw [if_neg ho, Option.or_none]

end Entries

/-! ## Registered names -/

theorem mem_registeredNames {history : List (String × Schema)} {name : String} :
    name ∈ registeredNames history ↔ (history.lookup name).isSome := by
  rw [registeredNames, List.mem_eraseDups]
  exact Entries.lookup_isSome_iff.symm

/-- A registration adds its name unless the name is there. -/
theorem registeredNames_concat (history : List (String × Schema)) (name : String)
    (schema : Schema) :
    registeredNames (history ++ [(name, schema)]) =
      if (history.lookup name).isSome then registeredNames history
      else registeredNames history ++ [name] := by
  have hmem : (history.lookup name).isSome ↔ name ∈ history.map Prod.fst :=
    Entries.lookup_isSome_iff
  rw [registeredNames, List.map_append, List.map_singleton, eraseDups_concat,
    registeredNames]
  simp only [hmem]

theorem nodup_registeredNames (history : List (String × Schema)) :
    (registeredNames history).Nodup :=
  nodup_eraseDups _

/-! ## What a table holds -/

/-- What a query registers, successfully or not. -/
def Query.registration : Query → List (String × Schema)
  | .register name schema => [(name, schema)]
  | _ => []

namespace Table

/-- The table is what these registrations leave. -/
structure Holds (table : Table) (history : List (String × Schema)) : Prop where
  get?_eq : ∀ name, table.get? name = history.lookup name
  keys_eq : Entries.keys table.schemas = registeredNames history

theorem Holds.empty : Holds .empty [] where
  get?_eq _ := rfl
  keys_eq := rfl

variable {table : Table} {history : List (String × Schema)}

theorem Holds.contains_eq (h : table.Holds history) (name : String) :
    table.contains name = (history.lookup name).isSome := by
  rw [contains, h.get?_eq]

theorem Holds.names_eq (h : table.Holds history) :
    table.names = (registeredNames history).mergeSort fun a b => decide (a ≤ b) := by
  rw [names, h.keys_eq]

theorem Holds.size_eq (h : table.Holds history) :
    table.size = (registeredNames history).length := by
  rw [← h.keys_eq, Entries.length_keys, size]

theorem Holds.isEmpty_eq (h : table.Holds history) :
    table.isEmpty = (registeredNames history).isEmpty := by
  rw [← h.keys_eq, Entries.keys, List.isEmpty_map, isEmpty]

theorem Holds.find_known (h : table.Holds history) {name : String} {schema : Schema}
    (hname : history.lookup name = some schema) : table.find name = .ok schema := by
  rw [find_eq_ok_iff, h.get?_eq, hname]

theorem Holds.find_unknown (h : table.Holds history) {name : String}
    (hname : history.lookup name = none) :
    table.find name = .error (.schemaNotFound name) := by
  rw [find, h.get?_eq, hname]

/-- A registration under a free name is entered. -/
theorem Holds.register_free (h : table.Holds history) {name : String}
    (hfree : history.lookup name = none) (schema : Schema) :
    ∃ grown, table.register name schema = .ok grown ∧
      grown.Holds (history ++ [(name, schema)]) := by
  have hcontains : table.contains name = false := by rw [h.contains_eq, hfree]; rfl
  obtain ⟨grown, hgrown, hschemas⟩ := register_of_free hcontains schema
  refine ⟨grown, hgrown, fun other => ?_, ?_⟩
  · have hold : table.schemas.lookup other = history.lookup other := h.get?_eq other
    rw [get?, hschemas, List.lookup_append, List.lookup_append, hold]
  · rw [hschemas, registeredNames_concat, hfree, ← h.keys_eq]
    simp [Entries.keys]

/-- A registration under a name that is taken changes nothing, as it is not
the first. -/
theorem Holds.register_taken (h : table.Holds history) {name : String}
    (htaken : (history.lookup name).isSome) (schema : Schema) :
    table.register name schema = .error (.duplicateName name) ∧
      table.Holds (history ++ [(name, schema)]) := by
  refine ⟨register_of_taken (by rw [h.contains_eq, htaken]) schema, fun other => ?_, ?_⟩
  · rw [Entries.lookup_concat_of_known htaken, h.get?_eq]
  · rw [registeredNames_concat, if_pos htaken, h.keys_eq]

/-! ## Serving a query -/

theorem Holds.answer_eq (h : table.Holds history) (threshold : Nat) (query : Query) :
    (table.serve threshold query).answer = query.answer history := by
  cases query with
  | register name schema =>
      cases hname : history.lookup name with
      | none =>
          obtain ⟨grown, hgrown, _⟩ := h.register_free hname schema
          simp only [serve, hgrown, Query.answer, hname]
          rfl
      | some first =>
          have htaken : (history.lookup name).isSome := by rw [hname]; rfl
          simp only [serve, (h.register_taken htaken schema).1, Query.answer,
            if_pos htaken]
  | get name => exact congrArg Answer.schema (h.get?_eq name)
  | contains name => exact congrArg Answer.contains (h.contains_eq name)
  | names => exact congrArg Answer.names h.names_eq
  | size => exact congrArg₂ Answer.size h.size_eq h.isEmpty_eq
  | validate name document =>
      cases hname : history.lookup name with
      | none =>
          simp only [serve, validate, h.find_unknown hname, Query.answer, hname]
          rfl
      | some schema =>
          simp only [serve, validate, h.find_known hname, Query.answer, hname, bind,
            Except.bind, Schema.validate_eq]
          cases schema.check (some document) .root <;> rfl
  | batch name documents =>
      cases hname : history.lookup name with
      | none =>
          simp only [serve, batch, h.find_unknown hname, Query.answer, hname]
          rfl
      | some schema =>
          simp only [serve, batch, h.find_known hname, Query.answer, hname, judgeAll_eq]
          rfl

/-- What registers nothing leaves the table as it is. -/
theorem serve_table_of_read {threshold : Nat} {query : Query}
    (h : query.registration = []) :
    (table.serve threshold query).table = table := by
  cases query with
  | register name schema => cases h
  | validate name document =>
      rw [serve]
      split <;> rfl
  | batch name documents =>
      rw [serve]
      split <;> rfl
  | _ => rfl

/-- Only a registration that is answered as one changes the table. -/
theorem serve_table_eq {threshold : Nat} {query : Query}
    (h : (table.serve threshold query).answer ≠ .registered) :
    (table.serve threshold query).table = table := by
  cases query with
  | register name schema =>
      rw [serve] at h ⊢
      cases hregister : table.register name schema with
      | ok grown =>
          rw [hregister] at h
          exact absurd rfl h
      | error error => rfl
  | _ => exact serve_table_of_read rfl

theorem Holds.serve (h : table.Holds history) (threshold : Nat) (query : Query) :
    (table.serve threshold query).table.Holds (history ++ query.registration) := by
  cases query with
  | register name schema =>
      rw [Query.registration]
      cases hname : history.lookup name with
      | none =>
          obtain ⟨grown, hgrown, hholds⟩ := h.register_free hname schema
          simpa only [Table.serve, hgrown] using hholds
      | some first =>
          have htaken : (history.lookup name).isSome := by rw [hname]; rfl
          obtain ⟨hregister, hholds⟩ := h.register_taken htaken schema
          simpa only [Table.serve, hregister] using hholds
  | _ =>
      rw [serve_table_of_read rfl]
      exact (List.append_nil history).symm ▸ h

end Table

/-! ## What an answer depends on -/

/-- Names that are the same up to their order are sorted into one list. -/
theorem sorted_names_eq_of_perm {a b : List String} (h : a.Perm b) :
    (a.mergeSort fun x y => decide (x ≤ y)) =
      b.mergeSort fun x y => decide (x ≤ y) := by
  refine List.Perm.eq_of_pairwise (fun x y _ _ => String.le_antisymm)
    (pairwise_mergeSort_key id a) (pairwise_mergeSort_key id b) ?_
  exact (List.mergeSort_perm a _).trans (h.trans (List.mergeSort_perm b _).symm)

/-- Registrations that give every name the same meaning give every query the
same answer. -/
theorem Query.answer_congr {a b : List (String × Schema)}
    (h : ∀ name, a.lookup name = b.lookup name) (query : Query) :
    query.answer a = query.answer b := by
  have hnames : (registeredNames a).Perm (registeredNames b) := by
    rw [List.perm_ext_iff_of_nodup (nodup_registeredNames a) (nodup_registeredNames b)]
    intro name
    rw [mem_registeredNames, mem_registeredNames, h]
  cases query with
  | names => exact congrArg Answer.names (sorted_names_eq_of_perm hnames)
  | size =>
      have hempty : (registeredNames a).isEmpty = (registeredNames b).isEmpty :=
        hnames.isEmpty_eq
      exact congrArg₂ Answer.size hnames.length_eq hempty
  | _ => simp only [Query.answer, h]

end JsonShape
