import JsonShape.Registry.Table

/-!
# Registry — handles, steps and runs

A registry is used through handles. A handle reaches one table and has a
threshold from which its batches are spread over tasks; a handle made from
another one reaches the same table, a created one a table of its own. Handles
are numbered in the order in which they come to be.

`Registry.step` is one step and `Registry.run` a sequence of them, with the
answers and the log that go with it.
-/

namespace JsonShape

/-- A way to reach a table. -/
structure Handle where
  table : Nat
  threshold : Nat
  deriving DecidableEq, Repr

/-- All tables, and the handles by which they are reached. -/
structure Registry where
  tables : List Table
  handles : List Handle
  table_lt : ∀ handle ∈ handles, handle.table < tables.length

/-- One step of a run. -/
inductive Step where
  /-- a new table, and a handle to it -/
  | create
  /-- another handle to the table of an existing one -/
  | share (handle : Nat)
  /-- the same, with a threshold of its own -/
  | shareFrom (handle : Nat) (threshold : Nat)
  /-- a query to the table of a handle -/
  | ask (handle : Nat) (query : Query)

/-- What a step leaves, answers and logs. -/
structure Outcome where
  registry : Registry
  answer : Answer
  events : List Event

/-- What a sequence of steps leaves, answers and logs. -/
structure Trace where
  registry : Registry
  answers : List Answer
  log : List Event

namespace Registry

/-- Batches of a new handle are spread over tasks from 64 documents on. -/
def defaultThreshold : Nat := 64

/-- One empty table, reached through handle 0. -/
def initial : Registry where
  tables := [.empty]
  handles := [⟨0, defaultThreshold⟩]
  table_lt := by simp

/-- The table that a handle reaches. -/
def table (registry : Registry) (handle : Handle) : Table :=
  registry.tables.getD handle.table .empty

/-- A new empty table, and a handle to it. -/
def create (registry : Registry) : Registry where
  tables := registry.tables ++ [.empty]
  handles := registry.handles ++ [⟨registry.tables.length, defaultThreshold⟩]
  table_lt := by
    intro handle h
    rw [List.length_append, List.length_singleton]
    rcases List.mem_append.mp h with h | h
    · exact Nat.lt_succ_of_lt (registry.table_lt handle h)
    · rw [List.mem_singleton.mp h]
      exact Nat.lt_succ_self _

/-- Another handle to the table that `handle` reaches. -/
def share (registry : Registry) (handle : Handle) (h : handle ∈ registry.handles)
    (threshold : Nat) : Registry where
  tables := registry.tables
  handles := registry.handles ++ [⟨handle.table, threshold⟩]
  table_lt := by
    intro other ho
    rcases List.mem_append.mp ho with ho | ho
    · exact registry.table_lt other ho
    · rw [List.mem_singleton.mp ho]
      exact registry.table_lt handle h

/-- Puts `table` in the place of the one that `handle` reaches. -/
def replace (registry : Registry) (handle : Handle) (table : Table) : Registry where
  tables := registry.tables.set handle.table table
  handles := registry.handles
  table_lt := by
    intro other ho
    rw [List.length_set]
    exact registry.table_lt other ho

/-- Runs `act` on the handle with that number; a number that no handle has
leaves everything as it is. -/
def through (registry : Registry) (number : Nat)
    (act : (handle : Handle) → handle ∈ registry.handles → Outcome) : Outcome :=
  match h : registry.handles[number]? with
  | some handle => act handle (List.mem_of_getElem? h)
  | none => ⟨registry, .unknownHandle, []⟩

def step (registry : Registry) : Step → Outcome
  | .create => ⟨registry.create, .opened, []⟩
  | .share number =>
      registry.through number fun handle h =>
        ⟨registry.share handle h handle.threshold, .opened, []⟩
  | .shareFrom number threshold =>
      registry.through number fun handle h =>
        ⟨registry.share handle h threshold, .opened, []⟩
  | .ask number query =>
      registry.through number fun handle _ =>
        let reply := (registry.table handle).serve handle.threshold query
        ⟨registry.replace handle reply.table, reply.answer, reply.events⟩

/-- The steps one after another, each on what the one before left. -/
def run (registry : Registry) : List Step → Trace
  | [] => ⟨registry, [], []⟩
  | step :: rest =>
      let outcome := registry.step step
      let trace := run outcome.registry rest
      ⟨trace.registry, outcome.answer :: trace.answers, outcome.events ++ trace.log⟩

@[simp] theorem run_nil (registry : Registry) :
    registry.run [] = ⟨registry, [], []⟩ := rfl

/-- A run may be cut anywhere. -/
theorem run_append (registry : Registry) (before after : List Step) :
    registry.run (before ++ after) =
      ⟨((registry.run before).registry.run after).registry,
        (registry.run before).answers ++
          ((registry.run before).registry.run after).answers,
        (registry.run before).log ++
          ((registry.run before).registry.run after).log⟩ := by
  induction before generalizing registry with
  | nil => rfl
  | cons step rest ih => simp only [List.cons_append, run, ih, List.append_assoc]

@[simp] theorem length_answers (registry : Registry) (steps : List Step) :
    (registry.run steps).answers.length = steps.length := by
  induction steps generalizing registry with
  | nil => rfl
  | cons step rest ih => simp only [run, List.length_cons, ih]

theorem through_of_some {registry : Registry} {number : Nat} {handle : Handle}
    (h : registry.handles[number]? = some handle)
    (act : (handle : Handle) → handle ∈ registry.handles → Outcome) :
    registry.through number act = act handle (List.mem_of_getElem? h) := by
  rw [through]
  split
  · rename_i other ho
    cases Option.some.inj (ho.symm.trans h)
    rfl
  · rename_i ho
    cases ho.symm.trans h

theorem through_of_none {registry : Registry} {number : Nat}
    (h : registry.handles[number]? = none)
    (act : (handle : Handle) → handle ∈ registry.handles → Outcome) :
    registry.through number act = ⟨registry, .unknownHandle, []⟩ := by
  rw [through]
  split
  · rename_i ho
    cases ho.symm.trans h
  · rfl

/-! ## Tables after a change -/

@[simp] theorem table_share (registry : Registry) (handle : Handle)
    (h : handle ∈ registry.handles) (threshold : Nat) (other : Handle) :
    (registry.share handle h threshold).table other = registry.table other := rfl

theorem table_replace_of_eq {registry : Registry} {handle other : Handle}
    (h : handle ∈ registry.handles) (he : other.table = handle.table) (t : Table) :
    (registry.replace handle t).table other = t := by
  have hlt := registry.table_lt handle h
  simp [table, replace, he, hlt]

theorem table_replace_of_ne {registry : Registry} {handle other : Handle}
    (hne : other.table ≠ handle.table) (t : Table) :
    (registry.replace handle t).table other = registry.table other := by
  simp [table, replace, List.getElem?_set_ne (Ne.symm hne)]

end Registry

end JsonShape
