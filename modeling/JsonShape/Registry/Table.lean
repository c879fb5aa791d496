import JsonShape.Validation.Basic

/-!
# Registry — a table of named schemas

A table maps names to schemas. The first registration of a name wins and a
name is never taken out, so a table only grows. Documents are judged by the
name of their schema, one at a time or in a batch; `judgeAll_eq` says that
how a batch is spread over tasks does not show in its verdicts.

`Table.serve` answers one query and says what is left and what is logged.

A registry tells its log of every registration, successful or not, of every
rejected document and of every batch. An event holds the data of what
happened; its level, its message and its named fields follow from it.
-/

namespace JsonShape

/-! ## Events -/

/-- One line of a registry's log. -/
inductive Event where
  | registered (name : String) (kindName : String)
  | alreadyRegistered (name : String)
  | rejected (name : String) (path : Path) (kind : FailureKind)
  | batchValidated (name : String) (documents rejected : Nat)
  deriving DecidableEq, Repr

namespace Event

inductive Level where
  | debug
  | warn
  deriving DecidableEq, Repr

def Level.name : Level → String
  | debug => "DEBUG"
  | warn => "WARN"

/-- A field of an event is a text or a count. -/
inductive FieldValue where
  | text (text : String)
  | count (count : Nat)
  deriving DecidableEq, Repr

/-- A name taken twice is worth a warning; the rest is for whoever looks. -/
def level : Event → Level
  | alreadyRegistered _ => .warn
  | _ => .debug

def message : Event → String
  | registered _ _ => "registered schema"
  | alreadyRegistered _ => "schema already registered"
  | rejected _ _ _ => "document rejected"
  | batchValidated _ _ _ => "validated batch"

/-- The named fields beside the message. -/
def details : Event → List (String × FieldValue)
  | registered name kindName => [("schema", .text name), ("kind", .text kindName)]
  | alreadyRegistered name => [("schema", .text name)]
  | rejected name path kind =>
      [("schema", .text name), ("path", .text path.text), ("code", .text kind.code)]
  | batchValidated name total failed =>
      [("schema", .text name), ("documents", .count total), ("rejected", .count failed)]

def fields (event : Event) : List (String × FieldValue) :=
  ("message", .text event.message) :: event.details

end Event

/-! ## Tables -/

/-- Why a registry refuses a query. -/
inductive RegistryError where
  /-- the name stands for a schema already -/
  | duplicateName (name : String)
  /-- the name stands for no schema -/
  | schemaNotFound (name : String)
  /-- the document does not conform to the schema -/
  | invalid (failure : Failure)
  deriving DecidableEq, Repr

def RegistryError.message : RegistryError → String
  | .duplicateName name => "schema '" ++ name ++ "' already registered"
  | .schemaNotFound name => "schema '" ++ name ++ "' not found"
  | .invalid failure => failure.text

/-- Named schemas in the order of their registration. -/
structure Table where
  schemas : List (String × Schema)
  distinct : (Entries.keys schemas).Nodup

/-- Judges documents one by one, or each in a task of its own when there are
at least `threshold` of them. The tasks stand for a parallel map over the
documents, of which it is assumed that it keeps their order: the verdicts are
collected in the order in which the tasks were made, whichever ends first. -/
def judgeAll (threshold : Nat) (schema : Schema) (documents : List Value) :
    List Verdict :=
  if documents.length < threshold then documents.map schema.validate
  else
    (documents.map fun document => Task.spawn fun _ => schema.validate document).map
      Task.get

/-- Every threshold gives the verdicts of the documents, in their order. -/
theorem judgeAll_eq (threshold : Nat) (schema : Schema) (documents : List Value) :
    judgeAll threshold schema documents = documents.map schema.validate := by
  rw [judgeAll]
  split
  · rfl
  · rw [List.map_map]
    rfl

/-- How many verdicts are rejections. -/
def rejections (verdicts : List Verdict) : Nat :=
  verdicts.countP fun verdict => !verdict.isOk

/-- What is asked of a table. -/
inductive Query where
  | register (name : String) (schema : Schema)
  | get (name : String)
  | contains (name : String)
  | names
  | size
  | validate (name : String) (document : Value)
  | batch (name : String) (documents : List Value)

inductive Answer where
  /-- the name is entered -/
  | registered
  | schema (found : Option Schema)
  | contains (known : Bool)
  | names (names : List String)
  | size (size : Nat) (isEmpty : Bool)
  | accepted
  | verdicts (verdicts : List Verdict)
  | refused (error : RegistryError)
  /-- there is a new handle -/
  | opened
  /-- no handle has that number -/
  | unknownHandle

/-- What a query leaves, answers and logs. -/
structure Reply where
  table : Table
  answer : Answer
  events : List Event

namespace Table

def empty : Table := ⟨[], List.nodup_nil⟩

def get? (table : Table) (name : String) : Option Schema :=
  table.schemas.lookup name

def contains (table : Table) (name : String) : Bool :=
  (table.get? name).isSome

/-- The registered names in the order of their code points. -/
def names (table : Table) : List String :=
  (Entries.keys table.schemas).mergeSort fun a b => decide (a ≤ b)

def size (table : Table) : Nat :=
  table.schemas.length

def isEmpty (table : Table) : Bool :=
  table.schemas.isEmpty

/-- Enters a schema under a name that is still free. -/
def register (table : Table) (name : String) (schema : Schema) :
    Except RegistryError Table :=
  if table.contains name then .error (.duplicateName name)
  else
    .ok ⟨Entries.put table.schemas name schema,
      Entries.nodup_keys_put table.distinct name schema⟩

/-- The schema of a name, for a query that cannot go on without one. -/
def find (table : Table) (name : String) : Except RegistryError Schema :=
  match table.get? name with
  | some schema => .ok schema
  | none => .error (.schemaNotFound name)

/-- Judges a document by the schema of a name. -/
def validate (table : Table) (name : String) (document : Value) :
    Except RegistryError Unit := do
  let schema ← table.find name
  match schema.validate document with
  | .ok () => .ok ()
  | .error failure => .error (.invalid failure)

/-- Judges documents by the schema of a name; a document that is rejected
does not keep the others from being judged. -/
def batch (table : Table) (threshold : Nat) (name : String) (documents : List Value) :
    Except RegistryError (List Verdict) := do
  let schema ← table.find name
  return judgeAll threshold schema documents

/-- Answers a query; batches are spread over tasks from `threshold` documents
on. -/
def serve (table : Table) (threshold : Nat) : Query → Reply
  | .register name schema =>
      match table.register name schema with
      | .ok grown => ⟨grown, .registered, [.registered name schema.kindName]⟩
      | .error error => ⟨table, .refused error, [.alreadyRegistered name]⟩
  | .get name => ⟨table, .schema (table.get? name), []⟩
  | .contains name => ⟨table, .contains (table.contains name), []⟩
  | .names => ⟨table, .names table.names, []⟩
  | .size => ⟨table, .size table.size table.isEmpty, []⟩
  | .validate name document =>
      match table.validate name document with
      | .ok () => ⟨table, .accepted, []⟩
      | .error (.invalid failure) =>
          ⟨table, .refused (.invalid failure),
            [.rejected name failure.path failure.kind]⟩
      | .error error => ⟨table, .refused error, []⟩
  | .batch name documents =>
      match table.batch threshold name documents with
      | .ok verdicts =>
          ⟨table, .verdicts verdicts,
            [.batchValidated name documents.length (rejections verdicts)]⟩
      | .error error => ⟨table, .refused error, []⟩

/-! ## Views of a table -/

@[simp] theorem get?_empty (name : String) : empty.get? name = none := rfl

@[simp] theorem size_empty : empty.size = 0 := rfl

theorem contains_iff {table : Table} {name : String} :
    table.contains name = true ↔ name ∈ Entries.keys table.schemas :=
  Entries.lookup_isSome_iff

theorem contains_eq_false_iff {table : Table} {name : String} :
    table.contains name = false ↔ table.get? name = none := by
  rw [contains]
  cases table.get? name <;> simp

theorem mem_names {table : Table} {name : String} :
    name ∈ table.names ↔ table.contains name = true := by
  rw [contains_iff, names, List.mem_mergeSort]

@[simp] theorem length_names (table : Table) : table.names.length = table.size := by
  rw [names, List.length_mergeSort, Entries.length_keys, size]

theorem find_eq_ok_iff {table : Table} {name : String} {schema : Schema} :
    table.find name = .ok schema ↔ table.get? name = some schema := by
  rw [find]
  cases table.get? name <;> simp

/-- A free name is entered at the end. -/
theorem register_of_free {table : Table} {name : String}
    (h : table.contains name = false) (schema : Schema) :
    ∃ grown, table.register name schema = .ok grown ∧
      grown.schemas = table.schemas ++ [(name, schema)] := by
  refine ⟨_, by rw [register, h]; rfl, ?_⟩
  apply Entries.put_of_not_mem
  intro hm
  rw [contains_iff.mpr hm] at h
  cases h

theorem register_of_taken {table : Table} {name : String}
    (h : table.contains name = true) (schema : Schema) :
    table.register name schema = .error (.duplicateName name) := by
  rw [register, h]
  rfl

end Table

end JsonShape
