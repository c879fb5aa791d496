import JsonShape.Proofs.TableHistory

/-!
# Registry history — a run told from its registrations

`Registry.Reflects` is the simulation between a registry and what is told of
it: which handle reaches which table, and what was registered in each. A step
keeps it and is answered as `Step.answerIn` says, so a whole run keeps it and
every answer of a run follows from the steps before.
-/

namespace JsonShape

namespace Registry

/-- The registry is what `lineage` and `history` tell. -/
structure Reflects (registry : Registry) (lineage : Lineage)
    (history : Nat → List (String × Schema)) : Prop where
  owners : registry.handles.map Handle.table = lineage.owners
  tables : registry.tables.length = lineage.tables
  holds : ∀ (t : Nat) table, registry.tables[t]? = some table → table.Holds (history t)
  fresh : ∀ t, lineage.tables ≤ t → history t = []

theorem Reflects.initial : Reflects .initial .initial fun _ => [] where
  owners := rfl
  tables := rfl
  holds t table h := by
    cases t with
    | zero => cases h; exact .empty
    | succ t => cases h
  fresh _ _ := rfl

variable {registry : Registry} {lineage : Lineage}
  {history : Nat → List (String × Schema)}

theorem Reflects.owner_eq (h : registry.Reflects lineage history) (number : Nat) :
    lineage.owners[number]? = (registry.handles[number]?).map Handle.table := by
  rw [← h.owners, List.getElem?_map]

/-- The table of a handle holds what was registered there. -/
theorem Reflects.table_holds (h : registry.Reflects lineage history)
    {handle : Handle} (hm : handle ∈ registry.handles) :
    (registry.table handle).Holds (history handle.table) := by
  have hlt := registry.table_lt handle hm
  refine h.holds handle.table _ ?_
  simp [table, hlt]

/-! ## One step -/

/-- A handle made from another one, with whatever threshold. -/
theorem Reflects.answer_share (h : registry.Reflects lineage history) (number : Nat)
    (threshold : Handle → Nat) :
    (registry.through number fun handle hm =>
      ⟨registry.share handle hm (threshold handle), .opened, []⟩).answer =
        if (lineage.owners[number]?).isSome then .opened else .unknownHandle := by
  rw [h.owner_eq]
  cases hn : registry.handles[number]? with
  | none => rw [through_of_none hn]; rfl
  | some handle => rw [through_of_some hn]; rfl

theorem Reflects.answer_eq (h : registry.Reflects lineage history) (step : Step) :
    (registry.step step).answer = step.answerIn lineage history := by
  cases step with
  | create => rfl
  | share number => exact h.answer_share number Handle.threshold
  | shareFrom number threshold => exact h.answer_share number fun _ => threshold
  | ask number query =>
      rw [Registry.step, Step.answerIn, h.owner_eq]
      cases hn : registry.handles[number]? with
      | none => rw [through_of_none hn]; rfl
      | some handle =>
          rw [through_of_some hn]
          exact (h.table_holds (List.mem_of_getElem? hn)).answer_eq
            handle.threshold query

theorem replace_self {handle : Handle} (h : handle ∈ registry.handles) :
    registry.replace handle (registry.table handle) = registry := by
  have hlt := registry.table_lt handle h
  have htables : registry.tables.set handle.table (registry.table handle) =
      registry.tables := by
    simp [table, hlt]
  cases registry
  simpa [replace] using htables

/-- A query that is not answered as a registration leaves the registry as it
is: all tables and all handles. -/
theorem step_ask_eq {number : Nat} {query : Query}
    (h : (registry.step (.ask number query)).answer ≠ .registered) :
    (registry.step (.ask number query)).registry = registry := by
  rw [Registry.step] at h ⊢
  cases hn : registry.handles[number]? with
  | none => rw [through_of_none hn]
  | some handle =>
      rw [through_of_some hn] at h ⊢
      simp only [Table.serve_table_eq h]
      exact replace_self (List.mem_of_getElem? hn)

end Registry

/-! ## What a step adds to the story -/

theorem Lineage.registration_ask (lineage : Lineage) (t number : Nat) (query : Query) :
    lineage.registration t (.ask number query) =
      if lineage.owners[number]? = some t then query.registration else [] := by
  cases query with
  | register name schema => rfl
  | _ => exact (ite_self _).symm

namespace Registry

variable {registry : Registry} {lineage : Lineage}
  {history : Nat → List (String × Schema)}

theorem Reflects.create (h : registry.Reflects lineage history) :
    registry.create.Reflects (lineage.after .create) history where
  owners := by simp [Registry.create, Lineage.after, h.owners, h.tables]
  tables := by simp [Registry.create, Lineage.after, h.tables]
  holds t table ht := by
    have ht : (registry.tables ++ [Table.empty])[t]? = some table := ht
    by_cases hlt : t < registry.tables.length
    · rw [List.getElem?_append_left hlt] at ht
      exact h.holds t table ht
    · -- the new table is empty, and nothing was registered under its number
      have hfresh := h.fresh t (by rw [← h.tables]; omega)
      rw [List.getElem?_append_right (by omega), List.getElem?_singleton] at ht
      split at ht
      · cases ht
        rw [hfresh]
        exact .empty
      · cases ht
  fresh t ht := h.fresh t (Nat.le_of_succ_le ht)

theorem Reflects.share (h : registry.Reflects lineage history) (number : Nat)
    (threshold : Handle → Nat) :
    (registry.through number fun handle hm =>
      ⟨registry.share handle hm (threshold handle), .opened, []⟩).registry.Reflects
        (lineage.inherit number) history := by
  rw [Lineage.inherit, h.owner_eq]
  cases hn : registry.handles[number]? with
  | none => rw [through_of_none hn]; exact h
  | some handle =>
      rw [through_of_some hn]
      exact ⟨by simp [Registry.share, h.owners], h.tables, h.holds, h.fresh⟩

/-- After a query the table of its handle holds one registration more, if the
query is one; the other tables are as before. -/
theorem Reflects.replace (h : registry.Reflects lineage history) {handle : Handle}
    (hm : handle ∈ registry.handles) {table : Table} {added : List (String × Schema)}
    (htable : table.Holds (history handle.table ++ added)) :
    (registry.replace handle table).Reflects lineage fun t =>
      history t ++ if handle.table = t then added else [] where
  owners := h.owners
  tables := by simpa [Registry.replace] using h.tables
  holds t other ht := by
    have ht : (registry.tables.set handle.table table)[t]? = some other := ht
    by_cases he : handle.table = t
    · subst he
      rw [List.getElem?_set_self (registry.table_lt handle hm)] at ht
      cases ht
      rw [if_pos rfl]
      exact htable
    · rw [List.getElem?_set_ne he] at ht
      rw [if_neg he, List.append_nil]
      exact h.holds t other ht
  fresh t ht := by
    have hlt : handle.table < lineage.tables := h.tables ▸ registry.table_lt handle hm
    rw [h.fresh t ht, if_neg (by omega), List.append_nil]

theorem Reflects.step (h : registry.Reflects lineage history) (step : Step) :
    (registry.step step).registry.Reflects (lineage.after step) fun t =>
      history t ++ lineage.registration t step := by
  cases step with
  | create => simpa [Registry.step, Lineage.registration] using h.create
  | share number =>
      simpa [Registry.step, Lineage.after, Lineage.registration] using
        h.share number Handle.threshold
  | shareFrom number threshold =>
      simpa [Registry.step, Lineage.after, Lineage.registration] using
        h.share number fun _ => threshold
  | ask number query =>
      simp only [Registry.step, Lineage.after, Lineage.registration_ask, h.owner_eq]
      cases hn : registry.handles[number]? with
      | none => rw [through_of_none hn]; simpa using h
      | some handle =>
          rw [through_of_some hn]
          have hm := List.mem_of_getElem? hn
          simpa using h.replace hm ((h.table_holds hm).serve handle.threshold query)

/-! ## Whole runs -/

theorem Reflects.run (h : registry.Reflects lineage history) (steps : List Step) :
    (registry.run steps).registry.Reflects (lineage.afterAll steps) fun t =>
      history t ++ lineage.registrations t steps := by
  induction steps generalizing registry lineage history with
  | nil => simpa [Lineage.afterAll, Lineage.registrations] using h
  | cons step rest ih =>
      simpa [Registry.run, Lineage.afterAll, Lineage.registrations, List.append_assoc]
        using ih (h.step step)

/-- Every run from the start is told by its steps. -/
theorem reflects_run (steps : List Step) :
    (initial.run steps).registry.Reflects (Lineage.initial.afterAll steps)
      (registeredIn steps) :=
  Reflects.initial.run steps

/-- In a run a step is answered by what the steps before it left. -/
theorem answers_at (registry : Registry) (before : List Step) (step : Step)
    (after : List Step) :
    (registry.run (before ++ step :: after)).answers[before.length]? =
      some ((registry.run before).registry.step step).answer := by
  rw [run_append]
  have hlength := length_answers registry before
  rw [List.getElem?_append_right (Nat.le_of_eq hlength), hlength, Nat.sub_self]
  rfl

end Registry

end JsonShape
