import JsonShape.Proofs.RegistryHistory

/-!
# Answering — what a query is answered by the table it comes to

A table is what registering its own schemas leaves, so `Query.answer` tells every
answer from the table's contents: neither the threshold of the handle nor how the
table came about has a part in it. A query that is about a name is answered by
what the name stands for, and by nothing else in the table.
-/

namespace JsonShape

/-! ## A table as its own history -/

theorem registeredNames_of_nodup {history : List (String × Schema)}
    (h : (Entries.keys history).Nodup) :
    registeredNames history = Entries.keys history := by
  induction history with
  | nil => rfl
  | cons e rest ih =>
      rw [Entries.keys_cons, List.nodup_cons] at h
      have hrest : (Entries.keys rest).eraseDups = Entries.keys rest := ih h.2
      have hkept : (Entries.keys rest).filter (fun name => !name == e.1) =
          Entries.keys rest := by
        rw [List.filter_eq_self]
        intro name hname
        have hne : name ≠ e.1 := fun he => h.1 (he ▸ hname)
        simpa using hne
      show (e.1 :: Entries.keys rest).eraseDups = _
      rw [List.eraseDups_cons, hkept, hrest, Entries.keys_cons]

namespace Table

theorem holds_schemas (table : Table) : table.Holds table.schemas where
  get?_eq _ := rfl
  keys_eq := (registeredNames_of_nodup table.distinct).symm

theorem answer_eq (table : Table) (threshold : Nat) (query : Query) :
    (table.serve threshold query).answer = query.answer table.schemas :=
  table.holds_schemas.answer_eq threshold query

/-- After a query a name stands for what it stood for, or for what the query
registers under it. -/
theorem get?_serve (table : Table) (threshold : Nat) (query : Query) (name : String) :
    (table.serve threshold query).table.get? name =
      (table.get? name).or (query.registration.lookup name) := by
  rw [(table.holds_schemas.serve threshold query).get?_eq, List.lookup_append]
  rfl

end Table

/-! ## Queries about a name -/

namespace Query

/-- The name that a query is about; a list or a count of all names is about
none. -/
def name? : Query → Option String
  | register name _ | get name | contains name | validate name _ | batch name _ =>
      some name
  | names | size => none

variable {history : List (String × Schema)} {name : String} {schema : Schema}

/-- Tables in which a name stands for the same answer alike what is about it. -/
theorem answer_of_lookup {query : Query} (hname : query.name? = some name)
    {other : List (String × Schema)} (h : history.lookup name = other.lookup name) :
    query.answer history = query.answer other := by
  cases query with
  | names => cases hname
  | size => cases hname
  | _ =>
      cases hname
      simp only [answer, h]

theorem lookup_registration {query : Query} :
    query.registration.lookup name = some schema ↔ query = .register name schema := by
  cases query with
  | register other s =>
      rw [registration]
      by_cases h : other = name
      · subst h
        simp
      · simp [Entries.lookup_cons_ne h, h]
  | _ => simp [registration]

/-- A query registers nothing under a name that it is not about. -/
theorem lookup_registration_eq_none {query : Query}
    (h : ∀ schema, query ≠ .register name schema) :
    query.registration.lookup name = none := by
  rw [Option.eq_none_iff_forall_ne_some]
  intro schema hschema
  exact h schema (lookup_registration.mp hschema)

/-! ## Answers of a name that is known, and of one that is not -/

theorem answer_register_of_known (h : history.lookup name = some schema)
    (other : Schema) :
    (register name other).answer history = .refused (.duplicateName name) := by
  simp [answer, h]

theorem answer_register_of_free (h : history.lookup name = none) (schema : Schema) :
    (register name schema).answer history = .registered := by
  simp [answer, h]

theorem answer_batch_of_known (h : history.lookup name = some schema)
    (documents : List Value) :
    (batch name documents).answer history =
      .verdicts (documents.map fun document => schema.check (some document) .root) := by
  simp only [answer, h]

theorem answer_batch_notFound_iff {documents : List Value} :
    (batch name documents).answer history = .refused (.schemaNotFound name) ↔
      history.lookup name = none := by
  cases h : history.lookup name <;> simp [answer, h]

theorem answer_validate_accepted_iff (h : history.lookup name = some schema)
    {document : Value} :
    (validate name document).answer history = .accepted ↔
      schema.check (some document) .root = .ok () := by
  cases hv : schema.check (some document) .root <;> simp [answer, h, hv]

theorem answer_validate_invalid_iff (h : history.lookup name = some schema)
    {document : Value} {failure : Failure} :
    (validate name document).answer history = .refused (.invalid failure) ↔
      schema.check (some document) .root = .error failure := by
  cases hv : schema.check (some document) .root <;> simp [answer, h, hv]

theorem answer_validate_notFound_iff {document : Value} :
    (validate name document).answer history = .refused (.schemaNotFound name) ↔
      history.lookup name = none := by
  cases h : history.lookup name with
  | none => simp [answer, h]
  | some schema =>
      cases hv : schema.check (some document) .root <;> simp [answer, h, hv]

end Query

/-! ## Queries through a handle -/

namespace Registry

/-- What a query is answered through the handle with that number. -/
def ask (registry : Registry) (number : Nat) (query : Query) : Answer :=
  (registry.step (.ask number query)).answer

theorem ask_eq {registry : Registry} {number : Nat} {handle : Handle}
    (h : registry.handles[number]? = some handle) (query : Query) :
    registry.ask number query = query.answer (registry.table handle).schemas := by
  rw [ask, Registry.step, through_of_some h]
  exact (registry.table handle).answer_eq handle.threshold query

end Registry

end JsonShape
