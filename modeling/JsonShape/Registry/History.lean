import JsonShape.Registry.Basic

/-!
# Registry — what the answers depend on

The table that a handle reaches follows from the steps that made handles, and
what a table holds follows from the registrations made through handles that
reach it: a name stands for the schema of its first registration. This module
says so without a registry. `Lineage` keeps only which handle reaches which
table, `registrations` collects what was registered there, and `Query.answer`
says from such a list alone what a query is answered; `Step.answerAfter` says so
of every step. `MadeFrom` is the ancestry of handles, told from the steps.
`Step.logged` says what goes into the log with an answer.
-/

namespace JsonShape

/-- Which table each handle reaches, and how many tables there are. -/
structure Lineage where
  owners : List Nat
  tables : Nat
  deriving DecidableEq, Repr

namespace Lineage

def initial : Lineage := ⟨[0], 1⟩

/-- A handle made from another one reaches the same table. -/
def inherit (lineage : Lineage) (handle : Nat) : Lineage :=
  match lineage.owners[handle]? with
  | some table => ⟨lineage.owners ++ [table], lineage.tables⟩
  | none => lineage

def after (lineage : Lineage) : Step → Lineage
  | .create => ⟨lineage.owners ++ [lineage.tables], lineage.tables + 1⟩
  | .share handle => lineage.inherit handle
  | .shareFrom handle _ => lineage.inherit handle
  | .ask _ _ => lineage

/-- The steps one after another. -/
def afterAll (lineage : Lineage) (steps : List Step) : Lineage :=
  steps.foldl after lineage

/-- What a step registers in a table, successfully or not. -/
def registration (lineage : Lineage) (table : Nat) : Step → List (String × Schema)
  | .ask handle (.register name schema) =>
      if lineage.owners[handle]? = some table then [(name, schema)] else []
  | _ => []

/-- The registrations of some steps in a table, in their order. -/
def registrations (lineage : Lineage) (table : Nat) : List Step → List (String × Schema)
  | [] => []
  | step :: rest =>
      lineage.registration table step ++ (lineage.after step).registrations table rest

end Lineage

/-- The names of some registrations, each once. -/
def registeredNames (history : List (String × Schema)) : List String :=
  (history.map Prod.fst).eraseDups

/-- What a query is answered by a table with these registrations behind it:
the first one of a name counts. -/
def Query.answer (history : List (String × Schema)) : Query → Answer
  | .register name _ =>
      if (history.lookup name).isSome then .refused (.duplicateName name)
      else .registered
  | .get name => .schema (history.lookup name)
  | .contains name => .contains (history.lookup name).isSome
  | .names => .names ((registeredNames history).mergeSort fun a b => decide (a ≤ b))
  | .size => .size (registeredNames history).length (registeredNames history).isEmpty
  | .validate name document =>
      match history.lookup name with
      | none => .refused (.schemaNotFound name)
      | some schema =>
          match schema.check (some document) .root with
          | .ok () => .accepted
          | .error failure => .refused (.invalid failure)
  | .batch name documents =>
      match history.lookup name with
      | none => .refused (.schemaNotFound name)
      | some schema =>
          .verdicts (documents.map fun document => schema.check (some document) .root)

/-- What a step is answered where handles reach tables as `lineage` says and
`history` is what was registered in each table. -/
def Step.answerIn (lineage : Lineage) (history : Nat → List (String × Schema)) :
    Step → Answer
  | .create => .opened
  | .share handle | .shareFrom handle _ =>
      if (lineage.owners[handle]?).isSome then .opened else .unknownHandle
  | .ask handle query =>
      match lineage.owners[handle]? with
      | some table => query.answer (history table)
      | none => .unknownHandle

/-- The table that a handle reaches after some steps, if there is such a
handle by then. -/
def ownerAfter (steps : List Step) (handle : Nat) : Option Nat :=
  (Lineage.initial.afterAll steps).owners[handle]?

/-- What was registered in a table in the course of some steps. -/
def registeredIn (steps : List Step) (table : Nat) : List (String × Schema) :=
  Lineage.initial.registrations table steps

/-- What a step is answered after the steps `before`. -/
def Step.answerAfter (before : List Step) (step : Step) : Answer :=
  step.answerIn (Lineage.initial.afterAll before) (registeredIn before)

/-- The handle from which a step makes another one. -/
def Step.parent? : Step → Option Nat
  | .share handle | .shareFrom handle _ => some handle
  | _ => none

/-- `MadeFrom steps parent child`: in the course of the steps the handle
`child` is made from the handle `parent`. -/
inductive MadeFrom (steps : List Step) : Nat → Nat → Prop
  | made {before after : List Step} {step : Step} {parent : Nat} :
      steps = before ++ step :: after → step.parent? = some parent →
      parent < (Registry.initial.run before).registry.handles.length →
      MadeFrom steps parent (Registry.initial.run before).registry.handles.length

/-- The verdicts that reject a document, in their order. -/
def failing (verdicts : List Verdict) : List Verdict :=
  verdicts.filter fun
    | .ok () => false
    | .error _ => true

/-- What a step logs, given what it was answered. -/
def Step.logged : Step → Answer → List Event
  | .ask _ (.register name schema), .registered => [.registered name schema.kindName]
  | .ask _ (.register name _), .refused _ => [.alreadyRegistered name]
  | .ask _ (.validate name _), .refused (.invalid failure) =>
      [.rejected name failure.path failure.kind]
  | .ask _ (.batch name _), .verdicts verdicts =>
      [.batchValidated name verdicts.length (failing verdicts).length]
  | _, _ => []

end JsonShape
