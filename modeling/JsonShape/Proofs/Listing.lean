import JsonShape.Proofs.Accounting

/-!
# Listing — a table's names, counts and lookups say the same

A table can be asked for its names, for how many there are, and in several ways
whether a name is one of them. `Registry.ListsNames` says that all answers given
through one handle are about one list of names, which is in strictly increasing
order. They always are, and the list grows by one name exactly when some handle
of the table registers one with success.
-/

namespace JsonShape

/-! ## One table -/

/-- Names are ordered by code points, and no name is listed twice. -/
theorem Table.names_increasing (table : Table) : table.names.Pairwise (· < ·) := by
  have hordered : table.names.Pairwise (· ≤ ·) := pairwise_mergeSort_key id _
  have hdistinct : table.names.Nodup :=
    (List.mergeSort_perm _ _).nodup_iff.mpr table.distinct
  exact (hordered.and hdistinct).imp fun h => Std.lt_of_le_of_ne h.1 h.2

/-- A registration that is answered as one enters a name; any other query leaves
the table as it is. -/
theorem Table.Serves.grows {table : Table} {query : Query} {reply : Reply}
    (h : table.Serves query reply) :
    (reply.answer = .registered ∧ (∃ name schema, query = .register name schema) ∧
        reply.table.size = table.size + 1) ∨
      (reply.answer ≠ .registered ∧ reply.table = table) := by
  cases h with
  | @registers name schema grown hschemas =>
      refine .inl ⟨rfl, ⟨name, schema, rfl⟩, ?_⟩
      show grown.schemas.length = table.schemas.length + 1
      rw [hschemas, List.length_append, List.length_singleton]
  | _ => exact .inr ⟨nofun, rfl⟩

namespace Registry

variable {registry : Registry} {number : Nat} {handle : Handle}

/-! ## The views that a handle gives -/

/-- All that the handle with that number is answered about names is about the
listed ones. -/
structure ListsNames (registry : Registry) (number : Nat) (names : List String) :
    Prop where
  listed : registry.ask number .names = .names names
  increasing : names.Pairwise (· < ·)
  counted : registry.ask number .size = .size names.length names.isEmpty
  contains : ∀ name,
    registry.ask number (.contains name) = .contains true ↔ name ∈ names
  get : ∀ name,
    (∃ schema, registry.ask number (.get name) = .schema (some schema)) ↔ name ∈ names
  validate : ∀ name document,
    registry.ask number (.validate name document) ≠ .refused (.schemaNotFound name) ↔
      name ∈ names
  batch : ∀ name documents,
    registry.ask number (.batch name documents) ≠ .refused (.schemaNotFound name) ↔
      name ∈ names
  register : ∀ name schema,
    registry.ask number (.register name schema) = .refused (.duplicateName name) ↔
      name ∈ names

theorem listsNames (h : registry.handles[number]? = some handle) :
    registry.ListsNames number (registry.table handle).names := by
  have hmem : ∀ name, name ∈ (registry.table handle).names ↔
      ((registry.table handle).schemas.lookup name).isSome := fun _ => Table.mem_names
  have hholds := (registry.table handle).holds_schemas
  refine ⟨?listed, Table.names_increasing _, ?counted,
    fun name => ?contains, fun name => ?get, fun name document => ?validate,
    fun name documents => ?batch, fun name schema => ?register⟩
  case listed =>
    rw [ask_eq h, Query.answer, hholds.names_eq]
  case counted =>
    have hsorted : (registry.table handle).names.Perm
        (registeredNames (registry.table handle).schemas) :=
          hholds.names_eq ▸ List.mergeSort_perm ..
    have hempty : (registry.table handle).names.isEmpty = _ := hsorted.isEmpty_eq
    rw [ask_eq h, Query.answer, hsorted.length_eq, hempty]
  case contains =>
    rw [ask_eq h, hmem, Query.answer, Answer.contains.injEq]
  case get =>
    rw [ask_eq h, hmem, Query.answer, Option.isSome_iff_exists]
    simp only [Answer.schema.injEq]
  case validate =>
    rw [ask_eq h, hmem, ne_eq, Query.answer_validate_notFound_iff,
      Option.isSome_iff_ne_none]
  case batch =>
    rw [ask_eq h, hmem, ne_eq, Query.answer_batch_notFound_iff,
      Option.isSome_iff_ne_none]
  case register =>
    rw [ask_eq h, hmem, Query.answer]
    split <;> simp_all

/-! ## Names along a run -/

/-- With the step a name is registered, and not refused, through some handle of
the table that the handle `number` reaches. -/
def Enters (registry : Registry) (number : Nat) (step : Step) : Prop :=
  (registry.step step).answer = .registered ∧
    ∃ other name schema, step = .ask other (.register name schema) ∧
      (registry.handles[other]?).map Handle.table =
        (registry.handles[number]?).map Handle.table

/-- A handle keeps its number. -/
theorem handles_step (h : registry.handles[number]? = some handle) (step : Step) :
    (registry.step step).registry.handles[number]? = some handle := by
  have hshare : ∀ (parent : Nat) (threshold : Handle → Nat),
      (registry.through parent fun other hm =>
        ⟨registry.share other hm (threshold other), .opened,
          []⟩).registry.handles[number]? =
          some handle := by
    intro parent threshold
    cases hn : registry.handles[parent]? with
    | none => rwa [through_of_none hn]
    | some other =>
        rw [through_of_some hn]
        exact (List.getElem?_append_left (List.getElem?_eq_some_iff.mp h).1).trans h
  cases step with
  | create =>
      exact (List.getElem?_append_left (List.getElem?_eq_some_iff.mp h).1).trans h
  | share parent => exact hshare parent Handle.threshold
  | shareFrom parent threshold => exact hshare parent fun _ => threshold
  | ask other query =>
      rw [Registry.step]
      cases hn : registry.handles[other]? with
      | none => rwa [through_of_none hn]
      | some asked => rwa [through_of_some hn]

/-- A step that enters a name leaves the table with one name more; any other step
leaves it as it was. -/
theorem table_step (h : registry.handles[number]? = some handle) (step : Step) :
    (registry.Enters number step ∧ ((registry.step step).registry.table handle).size =
        (registry.table handle).size + 1) ∨
      (¬ registry.Enters number step ∧
        (registry.step step).registry.table handle = registry.table handle) := by
  have hstep := registry.steps step
  unfold Enters
  generalize registry.step step = outcome at hstep ⊢
  cases hstep with
  | @quiet _ next answer htables hanswer =>
      refine .inr ⟨?_, ?_⟩
      · rintro ⟨hregistered, _⟩
        rcases hanswer with rfl | rfl <;> cases hregistered
      · rcases htables with htables | htables
        · rw [table, table, htables]
        · rw [table, table, htables, tables_getD_concat_empty]
  | @asks other asked query reply hasked hserves =>
      have howner : (registry.handles[other]?).map Handle.table =
          (registry.handles[number]?).map Handle.table ↔
            asked.table = handle.table := by
        rw [hasked, h, Option.map_some, Option.map_some, Option.some.injEq]
      by_cases htable : asked.table = handle.table
      · have hbefore : registry.table asked = registry.table handle := by
          rw [table, htable, ← table]
        have hafter :=
          table_replace_of_eq (List.mem_of_getElem? hasked) htable.symm reply.table
        rw [hafter, ← hbefore]
        rcases hserves.grows with
          ⟨hanswer, ⟨name, schema, rfl⟩, hsize⟩ | ⟨hanswer, hsame⟩
        · exact .inl ⟨⟨hanswer, other, name, schema, rfl, howner.mpr htable⟩, hsize⟩
        · exact .inr ⟨fun hentered => hanswer hentered.1, hsame⟩
      · -- what is asked of another table enters nothing in this one
        refine .inr ⟨?_, table_replace_of_ne (Ne.symm htable) reply.table⟩
        rintro ⟨_, _, name, schema, hstep, hreached⟩
        cases hstep
        exact htable (howner.mp hreached)

/-! ## Whole runs -/

theorem handles_run (h : registry.handles[number]? = some handle) (steps : List Step) :
    (registry.run steps).registry.handles[number]? = some handle := by
  induction steps generalizing registry with
  | nil => exact h
  | cons step rest ih => exact ih (handles_step h step)

theorem size_le_run (h : registry.handles[number]? = some handle)
    (steps : List Step) :
    (registry.table handle).size ≤
      ((registry.run steps).registry.table handle).size := by
  induction steps generalizing registry with
  | nil => exact Nat.le_refl _
  | cons step rest ih =>
      refine Nat.le_trans ?_ (ih (handles_step h step))
      rcases table_step h step with ⟨_, hsize⟩ | ⟨_, hsame⟩
      · exact hsize ▸ Nat.le_succ _
      · exact Nat.le_of_eq (congrArg Table.size hsame.symm)

/-- After any steps all that a handle is answered about names is about one list.
A step that enters a name in its table makes the list longer by one, any other
step leaves it as it is, and no further steps make it shorter. -/
theorem views_agree (steps : List Step) {number : Nat}
    (h : number < (initial.run steps).registry.handles.length) :
    ∃ names, (initial.run steps).registry.ListsNames number names ∧
      (∀ step, ∃ after,
        (initial.run (steps ++ [step])).registry.ListsNames number after ∧
        ((initial.run steps).registry.Enters number step →
          after.length = names.length + 1) ∧
        (¬ (initial.run steps).registry.Enters number step → after = names)) ∧
      ∀ more, ∃ after,
        (initial.run (steps ++ more)).registry.ListsNames number after ∧
        names.length ≤ after.length := by
  have hhandle := List.getElem?_eq_getElem h
  refine ⟨_, listsNames hhandle, fun step => ?_, fun more => ?_⟩
  · rw [run_append]
    refine ⟨_, listsNames (handles_step hhandle step), ?_⟩
    rcases table_step hhandle step with ⟨hentered, hsize⟩ | ⟨hnot, hsame⟩
    · refine ⟨fun _ => ?_, fun hnot => absurd hentered hnot⟩
      rw [Table.length_names, Table.length_names]
      exact hsize
    · exact ⟨fun hentered => absurd hentered hnot, fun _ => congrArg Table.names hsame⟩
  · rw [run_append]
    refine ⟨_, listsNames (handles_run hhandle more), ?_⟩
    rw [Table.length_names, Table.length_names]
    exact size_le_run hhandle more

/-- The names that handle 1 of `sharedIds` lists are those that its lookups find. There
is one more of them once handle 0 has registered another name, and none more after
a registration that is refused. -/
theorem shared_ids_listed :
    1 < (initial.run sharedIds).registry.handles.length ∧
      ∃ names after, (initial.run sharedIds).registry.ListsNames 1 names ∧
        "id" ∈ names ∧ "page" ∉ names ∧ after.length = names.length + 1 ∧
        (initial.run (sharedIds ++
          [.ask 0 (.register "page" (.primitive .null))])).registry.ListsNames 1 after ∧
        (initial.run (sharedIds ++
          [.ask 1 (.register "id" (.primitive .null))])).registry.ListsNames 1 names := by
  have h : 1 < (initial.run sharedIds).registry.handles.length := by decide
  obtain ⟨names, hnames, hstep, _⟩ := views_agree sharedIds h
  obtain ⟨after, hafter, hmore, _⟩ :=
    hstep (.ask 0 (.register "page" (.primitive .null)))
  obtain ⟨_, hlisted, _, hsame⟩ := hstep (.ask 1 (.register "id" (.primitive .null)))
  have hrefused : ¬ (initial.run sharedIds).registry.Enters 1
      (.ask 1 (.register "id" (.primitive .null))) := fun hentered => nomatch hentered.1
  refine ⟨h, names, after, hnames, (hnames.contains "id").mp rfl, ?_, hmore ?_, hafter,
    hsame hrefused ▸ hlisted⟩
  · intro hpage
    exact nomatch (hnames.contains "page").mpr hpage
  · exact ⟨rfl, 0, "page", .primitive .null, rfl, rfl⟩

end Registry

end JsonShape
