import JsonShape.Proofs.Ancestry
import JsonShape.Proofs.Answering
import Mathlib.Algebra.GroupWithZero.Nat

/-!
# Accounting — a log that agrees with answers and tables

Tables, answers and the log of a registry change separately, and yet each can be
told from the others. `Table.Serves` lists what serving a query may do: a
registration, a refused one, a rejected document and a batch are logged, and
nothing else is. So the log of a run is what the steps log by their answers, in
the order of the steps, and it counts as many registrations as there are names in
all tables.
-/

namespace JsonShape

/-! ## What serving a query may do -/

/-- What is counted as rejected of a batch is how many of its verdicts fail. -/
theorem rejections_eq (verdicts : List Verdict) :
    rejections verdicts = (failing verdicts).length := by
  rw [rejections, List.countP_eq_length_filter, failing]
  congr 1
  refine List.filter_congr fun verdict _ => ?_
  cases verdict <;> rfl

/-- `table.Serves query reply`: this reply may be given. There is one case for
each thing that a table does. -/
inductive Table.Serves (table : Table) : Query → Reply → Prop
  | registers {name : String} {schema : Schema} {grown : Table} :
      grown.schemas = table.schemas ++ [(name, schema)] →
      Serves table (.register name schema)
        ⟨grown, .registered, [.registered name schema.kindName]⟩
  | refuses {name : String} {schema : Schema} :
      Serves table (.register name schema)
        ⟨table, .refused (.duplicateName name), [.alreadyRegistered name]⟩
  | accepts {name : String} {document : Value} :
      Serves table (.validate name document) ⟨table, .accepted, []⟩
  | rejects {name : String} {document : Value} {failure : Failure} :
      Serves table (.validate name document)
        ⟨table, .refused (.invalid failure), [.rejected name failure.path failure.kind]⟩
  | judges {name : String} {documents : List Value} {verdicts : List Verdict} :
      verdicts.length = documents.length →
      Serves table (.batch name documents)
        ⟨table, .verdicts verdicts,
          [.batchValidated name verdicts.length (failing verdicts).length]⟩
  | unknownSchema {name : String} {document : Value} :
      Serves table (.validate name document)
        ⟨table, .refused (.schemaNotFound name), []⟩
  | unknownSchemas {name : String} {documents : List Value} :
      Serves table (.batch name documents) ⟨table, .refused (.schemaNotFound name), []⟩
  | get {name : String} {found : Option Schema} :
      Serves table (.get name) ⟨table, .schema found, []⟩
  | contains {name : String} {known : Bool} :
      Serves table (.contains name) ⟨table, .contains known, []⟩
  | names {names : List String} : Serves table .names ⟨table, .names names, []⟩
  | size {size : Nat} {isEmpty : Bool} :
      Serves table .size ⟨table, .size size isEmpty, []⟩

theorem Table.serves (table : Table) (threshold : Nat) (query : Query) :
    table.Serves query (table.serve threshold query) := by
  cases query with
  | register name schema =>
      rw [serve]
      cases hname : table.contains name with
      | true =>
          rw [register_of_taken hname]
          exact .refuses
      | false =>
          obtain ⟨grown, hgrown, hschemas⟩ := register_of_free hname schema
          rw [hgrown]
          exact .registers hschemas
  | get name => exact .get
  | contains name => exact .contains
  | names => exact .names
  | size => exact .size
  | validate name document =>
      rw [serve, validate, find]
      cases table.get? name with
      | none => exact .unknownSchema
      | some schema =>
          cases hv : schema.validate document with
          | ok _ => simpa [hv, bind, Except.bind] using Serves.accepts
          | error failure => simpa [hv, bind, Except.bind] using Serves.rejects
  | batch name documents =>
      rw [serve, batch, find]
      cases table.get? name with
      | none => exact .unknownSchemas
      | some schema =>
          have hlength :
              (judgeAll threshold schema documents).length = documents.length := by
            rw [judgeAll_eq, List.length_map]
          show table.Serves _ ⟨table, .verdicts _,
            [.batchValidated name documents.length (rejections _)]⟩
          rw [← hlength, rejections_eq]
          exact .judges hlength

/-! ## What a step may do -/

/-- `registry.Steps step outcome`: this outcome may follow. A step that makes a
handle may make an empty table with it and logs nothing; any other step serves a
query from the table that its handle reaches. -/
inductive Registry.Steps (registry : Registry) : Step → Outcome → Prop
  | quiet {step : Step} {next : Registry} {answer : Answer} :
      next.tables = registry.tables ∨ next.tables = registry.tables ++ [.empty] →
      answer = .opened ∨ answer = .unknownHandle →
        Steps registry step ⟨next, answer, []⟩
  | asks {number : Nat} {handle : Handle} {query : Query} {reply : Reply} :
      registry.handles[number]? = some handle →
        (registry.table handle).Serves query reply →
      Steps registry (.ask number query)
        ⟨registry.replace handle reply.table, reply.answer, reply.events⟩

theorem Registry.steps_share (registry : Registry) (step : Step) (number : Nat)
    (threshold : Handle → Nat) :
    registry.Steps step (registry.through number fun handle h =>
      ⟨registry.share handle h (threshold handle), .opened, []⟩) := by
  cases hn : registry.handles[number]? with
  | none =>
      rw [through_of_none hn]
      exact .quiet (.inl rfl) (.inr rfl)
  | some handle =>
      rw [through_of_some hn]
      exact .quiet (.inl rfl) (.inl rfl)

theorem Registry.steps (registry : Registry) (step : Step) :
    registry.Steps step (registry.step step) := by
  cases step with
  | create => exact .quiet (.inr rfl) (.inl rfl)
  | share number => exact registry.steps_share _ number Handle.threshold
  | shareFrom number threshold => exact registry.steps_share _ number fun _ => threshold
  | ask number query =>
      rw [Registry.step]
      cases hn : registry.handles[number]? with
      | none =>
          rw [through_of_none hn]
          exact .quiet (.inl rfl) (.inr rfl)
      | some handle =>
          rw [through_of_some hn]
          exact .asks hn ((registry.table handle).serves handle.threshold query)

/-! ## The log in the order of the steps -/

theorem Step.logged_of_quiet {answer : Answer}
    (h : answer = .opened ∨ answer = .unknownHandle) (step : Step) :
    step.logged answer = [] := by
  rcases h with rfl | rfl
  · cases step with
    | ask number query => cases query <;> rfl
    | _ => rfl
  · cases step with
    | ask number query => cases query <;> rfl
    | _ => rfl

/-- What a step logs can be told from its answer. -/
theorem Registry.Steps.events_eq {registry : Registry} {step : Step}
    {outcome : Outcome} (h : registry.Steps step outcome) :
    outcome.events = step.logged outcome.answer := by
  cases h with
  | quiet _ hanswer => exact (Step.logged_of_quiet hanswer step).symm
  | asks _ hserves => cases hserves <;> rfl

theorem Registry.log_run (registry : Registry) (steps : List Step) :
    (registry.run steps).log =
      (steps.zip (registry.run steps).answers).flatMap fun p => p.1.logged p.2 := by
  induction steps generalizing registry with
  | nil => rfl
  | cons step rest ih =>
      rw [run, List.zip_cons_cons, List.flatMap_cons, ← ih,
        (registry.steps step).events_eq]

theorem Registry.log_concat (registry : Registry) (steps : List Step) (step : Step) :
    (registry.run (steps ++ [step])).log =
      (registry.run steps).log ++ ((registry.run steps).registry.step step).events := by
  simp [run_append, run]

/-! ## Answers and the events of one kind -/

/-- The answers with which something is logged. -/
def Answer.isLogged : Answer → Bool
  | .registered | .verdicts _ | .refused (.duplicateName _) | .refused (.invalid _) =>
      true
  | _ => false

/-- A step logs one event or none. -/
theorem Registry.Steps.length_events {registry : Registry} {step : Step}
    {outcome : Outcome} (h : registry.Steps step outcome) :
    outcome.events.length = if outcome.answer.isLogged then 1 else 0 := by
  cases h with
  | quiet _ hanswer => rcases hanswer with rfl | rfl <;> rfl
  | asks _ hserves => cases hserves <;> rfl

/-- A step leaves the log as it is exactly if its answer is of those that are
not logged. -/
theorem Registry.log_concat_eq_iff (registry : Registry) (steps : List Step)
    (step : Step) :
    (registry.run (steps ++ [step])).log = (registry.run steps).log ↔
      ((registry.run steps).registry.step step).answer.isLogged = false := by
  have hlength := ((registry.run steps).registry.steps step).length_events
  rw [log_concat, List.append_right_eq_self, ← List.length_eq_zero_iff, hlength]
  cases ((registry.run steps).registry.step step).answer.isLogged <;> simp

/-- The name for which an answer says that it is taken. -/
def Answer.taken? : Answer → Option String
  | .refused (.duplicateName name) => some name
  | _ => none

/-- The schema name by which a step judges one document. -/
def Step.validated? : Step → Option String
  | .ask _ (.validate name _) => some name
  | _ => none

/-- The schema name by which a step judges a batch. -/
def Step.batched? : Step → Option String
  | .ask _ (.batch name _) => some name
  | _ => none

/-- The schema name and the failure of a document that is rejected. -/
def Step.rejection? (step : Step) : Answer → Option (String × Failure)
  | .refused (.invalid failure) => step.validated?.map fun name => (name, failure)
  | _ => none

/-- The schema name and the verdicts of a batch. -/
def Step.judged? (step : Step) : Answer → Option (String × List Verdict)
  | .verdicts verdicts => step.batched?.map fun name => (name, verdicts)
  | _ => none

/-- Events of one kind are told by the steps, in their order, if each step logs
of that kind what its answer tells. -/
theorem Registry.log_view {α β : Type} {keep : Event → Bool} {view : Event → β}
    (told : Step → Answer → Option α) {render : α → β}
    (h : ∀ {registry : Registry} {step outcome}, registry.Steps step outcome →
      (outcome.events.filter keep).map view =
        ((told step outcome.answer).map render).toList)
    (registry : Registry) (steps : List Step) :
    ((registry.run steps).log.filter keep).map view =
      ((steps.zip (registry.run steps).answers).filterMap fun p => told p.1 p.2).map
        render := by
  induction steps generalizing registry with
  | nil => rfl
  | cons step rest ih =>
      rw [run, List.filter_append, List.map_append, ih, h (registry.steps step),
        List.zip_cons_cons, List.filterMap_cons]
      cases told step (registry.step step).answer <;> rfl

theorem Registry.Steps.warned {registry : Registry} {step : Step} {outcome : Outcome}
    (h : registry.Steps step outcome) :
    (outcome.events.filter (·.level == .warn)).map Event.details =
      (outcome.answer.taken?.map fun name => [("schema", .text name)]).toList := by
  cases h with
  | quiet _ hanswer => rcases hanswer with rfl | rfl <;> rfl
  | asks _ hserves => cases hserves <;> rfl

theorem Registry.Steps.rejected {registry : Registry} {step : Step} {outcome : Outcome}
    (h : registry.Steps step outcome) :
    (outcome.events.filter (·.message == "document rejected")).map Event.details =
      ((step.rejection? outcome.answer).map fun (name, failure) =>
        [("schema", .text name), ("path", .text failure.path.text),
          ("code", .text failure.code)]).toList := by
  cases h with
  | quiet _ hanswer => rcases hanswer with rfl | rfl <;> rfl
  | asks _ hserves => cases hserves <;> rfl

theorem Registry.Steps.judged {registry : Registry} {step : Step} {outcome : Outcome}
    (h : registry.Steps step outcome) :
    (outcome.events.filter (·.message == "validated batch")).map Event.details =
      ((step.judged? outcome.answer).map fun (name, verdicts) =>
        [("schema", .text name), ("documents", .count verdicts.length),
          ("rejected", .count (failing verdicts).length)]).toList := by
  cases h with
  | quiet _ hanswer => rcases hanswer with rfl | rfl <;> rfl
  | asks _ hserves => cases hserves <;> rfl

/-! ## Registrations and tables -/

/-- The registrations in a log. -/
def registrationsIn (log : List Event) : List Event :=
  log.filter (·.message == "registered schema")

@[simp] theorem registrationsIn_append (log more : List Event) :
    registrationsIn (log ++ more) = registrationsIn log ++ registrationsIn more :=
  List.filter_append ..

/-- The registrations that a table keeps, as a log has them. -/
def Table.registrations (table : Table) : List Event :=
  table.schemas.map fun e => .registered e.1 e.2.kindName

/-- A table keeps what it logs as registered. -/
theorem Table.Serves.registrations_eq {table : Table} {query : Query}
    {reply : Reply} (h : table.Serves query reply) :
    reply.table.registrations =
      table.registrations ++ registrationsIn reply.events := by
  cases h with
  | registers hschemas =>
      rw [registrations, hschemas, List.map_append]
      rfl
  | _ => exact (List.append_nil _).symm

theorem Table.length_registrations (table : Table) :
    table.registrations.length = table.size := by
  rw [registrations, List.length_map, size]

/-- With one table replaced, the sum changes by what that table does. -/
theorem sum_map_set {α : Type} (f : α → Nat) {items : List α} {i : Nat}
    (h : i < items.length) (item : α) :
    ((items.set i item).map f).sum + f items[i] = (items.map f).sum + f item := by
  induction items generalizing i with
  | nil => simp at h
  | cons first rest ih =>
      cases i with
      | zero =>
          simp only [List.set_cons_zero, List.map_cons, List.sum_cons,
            List.getElem_cons_zero]
          omega
      | succ i =>
          have hrest := ih (Nat.lt_of_succ_lt_succ h)
          simp only [List.set_cons_succ, List.map_cons, List.sum_cons,
            List.getElem_cons_succ]
          omega

namespace Registry

/-- How many names there are in all tables. -/
def totalSize (registry : Registry) : Nat :=
  (registry.tables.map Table.size).sum

theorem totalSize_replace {registry : Registry} {handle : Handle}
    (h : handle ∈ registry.handles) (table : Table) :
    (registry.replace handle table).totalSize + (registry.table handle).size =
      registry.totalSize + table.size := by
  have hlt := registry.table_lt handle h
  have hsum := sum_map_set Table.size hlt table
  have htable : registry.table handle = registry.tables[handle.table] := by
    simp [Registry.table, hlt]
  rw [htable]
  exact hsum

/-- A step enters as many names as it logs registrations. -/
theorem Steps.totalSize_eq {registry : Registry} {step : Step} {outcome : Outcome}
    (h : registry.Steps step outcome) :
    outcome.registry.totalSize =
      registry.totalSize + (registrationsIn outcome.events).length := by
  cases h with
  | quiet htables _ =>
      rcases htables with htables | htables <;>
        simp [totalSize, htables, registrationsIn]
  | @asks _ handle _ reply hhandle hserves =>
      have hsum := totalSize_replace (List.mem_of_getElem? hhandle) reply.table
      have hlength := congrArg List.length hserves.registrations_eq
      rw [List.length_append, Table.length_registrations,
        Table.length_registrations] at hlength
      show (registry.replace handle reply.table).totalSize =
        registry.totalSize + (registrationsIn reply.events).length
      omega

theorem totalSize_run (registry : Registry) (steps : List Step) :
    (registry.run steps).registry.totalSize =
      registry.totalSize + (registrationsIn (registry.run steps).log).length := by
  induction steps generalizing registry with
  | nil => rfl
  | cons step rest ih =>
      have hstep := (registry.steps step).totalSize_eq
      rw [run, ih, hstep, registrationsIn_append, List.length_append, Nat.add_assoc]

end Registry

/-! ## Runs that use one table -/

theorem Lineage.tables_after {step : Step} (h : step ≠ .create) (lineage : Lineage) :
    (lineage.after step).tables = lineage.tables := by
  have hinherit : ∀ number, (lineage.inherit number).tables = lineage.tables := by
    intro number
    rw [inherit]
    split <;> rfl
  cases step with
  | create => exact absurd rfl h
  | share number => exact hinherit number
  | shareFrom number _ => exact hinherit number
  | ask _ _ => rfl

theorem Lineage.tables_afterAll {steps : List Step} (h : ∀ step ∈ steps, step ≠ .create)
    (lineage : Lineage) : (lineage.afterAll steps).tables = lineage.tables := by
  induction steps generalizing lineage with
  | nil => rfl
  | cons step rest ih =>
      show ((lineage.after step).afterAll rest).tables = _
      rw [ih fun s hs => h s (List.mem_cons_of_mem _ hs),
        tables_after (h step List.mem_cons_self)]

/-- Every query of the run goes to the table `t`. -/
def UsesOnly (t : Nat) (steps : List Step) : Prop :=
  ∀ before number query after, steps = before ++ .ask number query :: after →
    ∀ owner, ownerAfter before number = some owner → owner = t

theorem UsesOnly.init {t : Nat} {before : List Step} {step : Step}
    (h : UsesOnly t (before ++ [step])) : UsesOnly t before := by
  intro earlier number query after hsplit
  refine h earlier number query (after ++ [step]) ?_
  rw [hsplit, List.append_assoc, List.cons_append]

/-- Where no table is made beside the first, all queries go to that one. -/
theorem usesOnly_of_no_create {steps : List Step} (h : ∀ step ∈ steps, step ≠ .create) :
    UsesOnly 0 steps := by
  intro before number query after hsplit owner howner
  have hbefore : ∀ step ∈ before, step ≠ .create := by
    intro step hm
    refine h step ?_
    rw [hsplit]
    exact List.mem_append_left _ hm
  have hlt := owner_lt_tables (List.mem_of_getElem? howner)
  rw [Lineage.tables_afterAll hbefore] at hlt
  exact Nat.lt_one_iff.mp hlt

namespace Registry

theorem tables_getD_concat_empty (tables : List Table) (t : Nat) :
    (tables ++ [Table.empty]).getD t .empty = tables.getD t .empty := by
  by_cases h : t < tables.length
  · simp [List.getElem?_append_left h]
  · have hle : tables.length ≤ t := Nat.le_of_not_lt h
    rw [List.getD_eq_getElem?_getD, List.getD_eq_getElem?_getD,
      List.getElem?_append_right hle, List.getElem?_eq_none hle,
      List.getElem?_singleton]
    split <;> rfl

/-- If all queries go to one table, the log has the registrations that this table
keeps, in the order of its entries. -/
theorem registrationsIn_log {t : Nat} {steps : List Step} (h : UsesOnly t steps) :
    registrationsIn (initial.run steps).log =
      ((initial.run steps).registry.tables.getD t .empty).registrations := by
  induction steps using List.reverseRecOn with
  | nil =>
      cases t with
      | zero => rfl
      | succ t => rfl
  | append_singleton before step ih =>
      have hbefore := ih h.init
      have hreflects := reflects_run before
      have hstep := (initial.run before).registry.steps step
      simp only [run_append, run, List.append_nil, registrationsIn_append, hbefore]
      generalize (initial.run before).registry.step step = outcome at hstep ⊢
      cases hstep with
      | quiet htables _ =>
          rcases htables with htables | htables
          · rw [htables]
            exact List.append_nil _
          · rw [htables, tables_getD_concat_empty]
            exact List.append_nil _
      | @asks number handle query reply hhandle hserves =>
          have howner : ownerAfter before number = some handle.table := by
            rw [ownerAfter, hreflects.owner_eq, hhandle]
            rfl
          obtain rfl : handle.table = t := h before number query [] rfl _ howner
          have hm := List.mem_of_getElem? hhandle
          have hreplaced := table_replace_of_eq hm rfl reply.table
          exact hserves.registrations_eq.symm.trans
            (congrArg Table.registrations hreplaced.symm)

end Registry

/-- The registrations in a log are those of the table: each of its names once,
with the kind of the schema that the name stands for. -/
structure Table.KeptIn (table : Table) (log : List Event) : Prop where
  distinct :
    ((registrationsIn log).map fun event => event.details.lookup "schema").Nodup
  names : ∀ name,
    some (.text name) ∈
      (registrationsIn log).map (fun event => event.details.lookup "schema") ↔
      name ∈ table.names
  kinds : ∀ event ∈ registrationsIn log, ∃ name schema, table.get? name = some schema ∧
    event.details = [("schema", .text name), ("kind", .text schema.kindName)]

theorem Table.keptIn_of_registrations {table : Table} {log : List Event}
    (h : registrationsIn log = table.registrations) : table.KeptIn log := by
  have hnames : (registrationsIn log).map (fun event => event.details.lookup "schema") =
      (Entries.keys table.schemas).map fun name => some (.text name) := by
    rw [h, registrations, Entries.keys, List.map_map, List.map_map]
    rfl
  refine ⟨?distinct, fun name => ?names, fun event hevent => ?kinds⟩
  case distinct =>
    rw [hnames]
    refine List.Pairwise.map _ (fun a b hab => ?_) table.distinct
    simpa using hab
  case names =>
    rw [hnames, mem_names, contains_iff]
    simp
  case kinds =>
    rw [h, registrations, List.mem_map] at hevent
    obtain ⟨⟨name, schema⟩, hentry, rfl⟩ := hevent
    exact ⟨name, schema, (Entries.lookup_eq_some_iff table.distinct).mpr hentry, rfl⟩

/-! ## The log of a run -/

/-- What a run logs agrees with its answers and its tables. -/
structure Accounted (steps : List Step) (trace : Trace) : Prop where
  inOrder : trace.log = (steps.zip trace.answers).flatMap fun p => p.1.logged p.2
  registered : (registrationsIn trace.log).length = trace.registry.totalSize
  warned : (trace.log.filter (·.level == .warn)).map Event.details =
    (trace.answers.filterMap Answer.taken?).map fun name => [("schema", .text name)]
  rejected : (trace.log.filter (·.message == "document rejected")).map Event.details =
    ((steps.zip trace.answers).filterMap fun p => p.1.rejection? p.2).map
      fun (name, failure) =>
        [("schema", .text name), ("path", .text failure.path.text),
          ("code", .text failure.code)]
  judged : (trace.log.filter (·.message == "validated batch")).map Event.details =
    ((steps.zip trace.answers).filterMap fun p => p.1.judged? p.2).map
      fun (name, verdicts) =>
        [("schema", .text name), ("documents", .count verdicts.length),
          ("rejected", .count (failing verdicts).length)]

namespace Registry

theorem accounted_run (steps : List Step) : Accounted steps (initial.run steps) where
  inOrder := initial.log_run steps
  registered := by
    rw [totalSize_run]
    exact (Nat.zero_add _).symm
  warned := by
    have hanswers : (steps.zip (initial.run steps).answers).map Prod.snd =
        (initial.run steps).answers := List.map_snd_zip (by simp)
    rw [log_view (fun _ answer => answer.taken?) Steps.warned, ← hanswers,
      List.filterMap_map, hanswers]
    rfl
  rejected := initial.log_view Step.rejection? Steps.rejected steps
  judged := initial.log_view Step.judged? Steps.judged steps

/-- After any steps the log agrees with all answers and all tables. One more
step is logged unless its answer is of those that are not; a batch is answered
with its verdicts, and so logged, exactly where its name is known. If all queries
went to one table, the log tells what this table keeps. -/
theorem log_accounts (steps : List Step) :
    Accounted steps (initial.run steps) ∧
      (∀ step, (initial.run (steps ++ [step])).log = (initial.run steps).log ↔
        ((initial.run steps).registry.step step).answer.isLogged = false) ∧
      (∀ number handle name documents,
        (initial.run steps).registry.handles[number]? = some handle →
          let answer := (initial.run steps).registry.ask number (.batch name documents)
          match ((initial.run steps).registry.table handle).get? name with
          | some schema =>
              answer = .verdicts (documents.map fun document =>
                schema.check (some document) .root)
          | none => answer = .refused (.schemaNotFound name)) ∧
      ∀ handle, UsesOnly handle.table steps →
        ((initial.run steps).registry.table handle).KeptIn (initial.run steps).log := by
  refine ⟨accounted_run steps, initial.log_concat_eq_iff steps, ?batch, ?table⟩
  case batch =>
    intro number handle name documents hhandle answer
    have hanswer : answer = (Query.batch name documents).answer
        ((initial.run steps).registry.table handle).schemas := ask_eq hhandle _
    cases hname : ((initial.run steps).registry.table handle).get? name with
    | some schema => rw [hanswer, Query.answer_batch_of_known hname]
    | none => rw [hanswer, Query.answer_batch_notFound_iff.mpr hname]
  case table =>
    intro handle honly
    exact Table.keptIn_of_registrations (registrationsIn_log honly)

/-- Two handles of one table, with a registration that is refused, a document that
is rejected and a batch of which two documents fail. -/
def sharedIds : List Step :=
  [.share 0, .ask 0 (.register "id" (.primitive .number)),
    .ask 1 (.register "id" (.primitive .string)), .ask 1 (.validate "id" .null),
    .ask 0 (.batch "id" [.number 4 0, .null, .string "x"]), .ask 1 (.batch "id" []),
    .ask 0 (.batch "page" [.null])]

example : (initial.run sharedIds).log.map Event.message =
    ["registered schema", "schema already registered", "document rejected",
      "validated batch", "validated batch"] :=
  rfl

/-- Both handles reach the table that the log tells, and a document for a name
that is not there adds nothing to it. The batches are counted by their verdicts. -/
theorem shared_ids_account :
    Accounted sharedIds (initial.run sharedIds) ∧
      ((initial.run sharedIds).log.filter (·.message == "validated batch")).map
          Event.details =
        [[("schema", .text "id"), ("documents", .count 3), ("rejected", .count 2)],
          [("schema", .text "id"), ("documents", .count 0), ("rejected", .count 0)]] ∧
      (initial.run (sharedIds ++ [.ask 1 (.validate "page" .null)])).log =
        (initial.run sharedIds).log ∧
      (initial.run sharedIds).registry.ask 1 (.batch "id" [.number 4 0, .null]) =
        .verdicts [.ok (),
          .error ((Mismatch.wrongType .number (.primitive .null)).failureAt .root)] ∧
      ((initial.run sharedIds).registry.table ⟨0, defaultThreshold⟩).KeptIn
        (initial.run sharedIds).log := by
  obtain ⟨haccounted, hsilent, hbatch, htable⟩ := log_accounts sharedIds
  have hjudged := hbatch 1 ⟨0, defaultThreshold⟩ "id" [.number 4 0, .null] rfl
  refine ⟨haccounted, haccounted.judged.trans rfl, (hsilent _).mpr rfl, hjudged, ?_⟩
  refine htable ⟨0, defaultThreshold⟩ (usesOnly_of_no_create ?_)
  simp [sharedIds]

end Registry

end JsonShape
