import JsonShape.Proofs.Answering

/-!
# Clients — a table that several clients share

Clients query one table, each following a program of its own, and their calls
come in any order that keeps each program's. Of the registrations of a free name
the first one wins, whoever makes it, and from then on the name stands for one
schema to all clients. A foreign registration is noticed only under its own name;
so clients that leave each other's names alone are answered as if each had the
table to itself, and leave the same names standing for the same schemas in
whatever order their calls came.
-/

namespace JsonShape

/-! ## Programs and schedules -/

/-- A query of one client, through a handle with that threshold. -/
structure Call where
  client : Nat
  threshold : Nat
  query : Query

/-- The calls of one client, in their order. -/
def ownCalls (client : Nat) (schedule : List Call) : List Call :=
  schedule.filter (·.client == client)

namespace Table

/-- What the table is after the calls. -/
def afterCalls (table : Table) (schedule : List Call) : Table :=
  schedule.foldl (fun table call => (table.serve call.threshold call.query).table) table

/-- The calls with their answers. -/
def answerCalls (table : Table) : List Call → List (Call × Answer)
  | [] => []
  | call :: rest =>
      let reply := table.serve call.threshold call.query
      (call, reply.answer) :: reply.table.answerCalls rest

/-- The answers that one client is given. -/
def answersTo (table : Table) (client : Nat) (schedule : List Call) : List Answer :=
  ((table.answerCalls schedule).filter (·.1.client == client)).map Prod.snd

end Table

theorem mem_ownCalls {client : Nat} {schedule : List Call} {call : Call} :
    call ∈ ownCalls client schedule ↔ call ∈ schedule ∧ call.client = client := by
  simp [ownCalls]

theorem ownCalls_cons_self {call : Call} (rest : List Call) :
    ownCalls call.client (call :: rest) = call :: ownCalls call.client rest := by
  simp [ownCalls]

theorem ownCalls_cons_ne {client : Nat} {call : Call} (h : call.client ≠ client)
    (rest : List Call) : ownCalls client (call :: rest) = ownCalls client rest := by
  simp [ownCalls, h]

/-- The schedule consists of the clients' programs, each in its own order. -/
def Interleaves (programs : Nat → List Call) (schedule : List Call) : Prop :=
  ∀ client, ownCalls client schedule = programs client

theorem Interleaves.mem_iff {programs : Nat → List Call} {schedule : List Call}
    (h : Interleaves programs schedule) {client : Nat} {call : Call} :
    call ∈ programs client ↔ call ∈ schedule ∧ call.client = client := by
  rw [← h client, mem_ownCalls]

/-- Every call is about some name: a registration, a lookup, a document or a
batch of documents. -/
def AboutNames (programs : Nat → List Call) : Prop :=
  ∀ client, ∀ call ∈ programs client, call.query.name?.isSome

/-- No client uses a name that another client registers. -/
def Apart (programs : Nat → List Call) : Prop :=
  ∀ client other, client ≠ other → ∀ call ∈ programs client, ∀ foreign ∈ programs other,
    ∀ name schema, foreign.query = .register name schema → call.query.name? ≠ some name

/-- In these answers the name stands for the schema: it is taken, it is found,
and documents are judged by it. -/
structure StandsFor (name : String) (schema : Schema)
    (answered : List (Call × Answer)) : Prop where
  register : ∀ call answer other, (call, answer) ∈ answered →
    call.query = .register name other →
    answer = .refused (.duplicateName name)
  get : ∀ call answer, (call, answer) ∈ answered → call.query = .get name →
    answer = .schema (some schema)
  contains : ∀ call answer, (call, answer) ∈ answered → call.query = .contains name →
    answer = .contains true
  accepted : ∀ call answer document, (call, answer) ∈ answered →
    call.query = .validate name document →
      (answer = .accepted ↔ schema.check (some document) .root = .ok ())
  rejected : ∀ call answer document failure, (call, answer) ∈ answered →
    call.query = .validate name document →
      (answer = .refused (.invalid failure) ↔
        schema.check (some document) .root = .error failure)
  batch : ∀ call answer documents, (call, answer) ∈ answered →
    call.query = .batch name documents →
      answer = .verdicts (documents.map fun document =>
        schema.check (some document) .root)

namespace Table

variable {table alone : Table} {name : String} {schema : Schema} {client : Nat}
  {schedule : List Call}

theorem answerCalls_cons (table : Table) (call : Call) (rest : List Call) :
    table.answerCalls (call :: rest) = (call, call.query.answer table.schemas) ::
      (table.serve call.threshold call.query).table.answerCalls rest := by
  rw [answerCalls, answer_eq]

theorem afterCalls_cons (table : Table) (call : Call) (rest : List Call) :
    table.afterCalls (call :: rest) =
      (table.serve call.threshold call.query).table.afterCalls rest := rfl

/-! ## A name that is known stays -/

theorem get?_serve_of_known (h : table.get? name = some schema) (threshold : Nat)
    (query : Query) : (table.serve threshold query).table.get? name = some schema := by
  rw [get?_serve, h, Option.some_or]

theorem get?_serve_of_ne {query : Query} (h : ∀ schema, query ≠ .register name schema)
    (table : Table) (threshold : Nat) :
    (table.serve threshold query).table.get? name = table.get? name := by
  rw [get?_serve, Query.lookup_registration_eq_none h, Option.or_none]

theorem get?_afterCalls_of_known (h : table.get? name = some schema) :
    (table.afterCalls schedule).get? name = some schema := by
  induction schedule generalizing table with
  | nil => exact h
  | cons call rest ih =>
      rw [afterCalls_cons]
      exact ih (get?_serve_of_known h call.threshold call.query)

/-- All calls are answered where the name stands for the schema. -/
theorem answerCalls_of_known (h : table.get? name = some schema) {call : Call}
    {answer : Answer} (hm : (call, answer) ∈ table.answerCalls schedule) :
    ∃ history : List (String × Schema), history.lookup name = some schema ∧
      answer = call.query.answer history := by
  induction schedule generalizing table with
  | nil => cases hm
  | cons first rest ih =>
      rw [answerCalls_cons] at hm
      rcases List.mem_cons.mp hm with he | hm
      · cases he
        exact ⟨table.schemas, h, rfl⟩
      · exact ih (get?_serve_of_known h first.threshold first.query) hm

theorem standsFor_of_known (h : table.get? name = some schema) :
    StandsFor name schema (table.answerCalls schedule) where
  register call answer other hm hquery := by
    obtain ⟨history, hname, rfl⟩ := answerCalls_of_known h hm
    rw [hquery, Query.answer_register_of_known hname]
  get call answer hm hquery := by
    obtain ⟨history, hname, rfl⟩ := answerCalls_of_known h hm
    rw [hquery, Query.answer, hname]
  contains call answer hm hquery := by
    obtain ⟨history, hname, rfl⟩ := answerCalls_of_known h hm
    rw [hquery, Query.answer, hname, Option.isSome_some]
  accepted call answer document hm hquery := by
    obtain ⟨history, hname, rfl⟩ := answerCalls_of_known h hm
    rw [hquery, Query.answer_validate_accepted_iff hname]
  rejected call answer document failure hm hquery := by
    obtain ⟨history, hname, rfl⟩ := answerCalls_of_known h hm
    rw [hquery, Query.answer_validate_invalid_iff hname]
  batch call answer documents hm hquery := by
    obtain ⟨history, hname, rfl⟩ := answerCalls_of_known h hm
    rw [hquery, Query.answer_batch_of_known hname]

/-! ## A name that is free goes to the first -/

/-- The first registration of a free name succeeds, and what comes after it is
answered by its schema. -/
theorem exists_first_registration (hfree : table.get? name = none)
    (h : ∃ call ∈ schedule, ∃ schema, call.query = .register name schema) :
    ∃ before call schema after,
      table.answerCalls schedule = before ++ (call, .registered) :: after ∧
        call.query = .register name schema ∧
        (∀ p ∈ before, ∀ other, p.1.query ≠ .register name other) ∧
        StandsFor name schema after ∧
          (table.afterCalls schedule).get? name = some schema := by
  induction schedule generalizing table with
  | nil =>
      obtain ⟨call, hm, _⟩ := h
      cases hm
  | cons call rest ih =>
      rw [answerCalls_cons, afterCalls_cons]
      by_cases hcall : ∃ schema, call.query = .register name schema
      · obtain ⟨schema, hquery⟩ := hcall
        have hknown : (table.serve call.threshold call.query).table.get? name =
            some schema := by
          rw [get?_serve, hfree, Option.none_or]
          exact Query.lookup_registration.mpr hquery
        have hanswer : call.query.answer table.schemas = .registered := by
          rw [hquery, Query.answer_register_of_free hfree]
        refine ⟨[], call, schema, _, by rw [hanswer, List.nil_append], hquery, by simp,
          standsFor_of_known hknown, get?_afterCalls_of_known hknown⟩
      · -- a call that does not register the name leaves it free for the rest
        have hne : ∀ schema, call.query ≠ .register name schema := not_exists.mp hcall
        have hrest : ∃ c ∈ rest, ∃ schema, c.query = .register name schema := by
          obtain ⟨c, hm, schema, hc⟩ := h
          rcases List.mem_cons.mp hm with rfl | hm
          · exact absurd hc (hne schema)
          · exact ⟨c, hm, schema, hc⟩
        have hstill : (table.serve call.threshold call.query).table.get? name =
            none := by
          rw [get?_serve_of_ne hne, hfree]
        obtain ⟨before, winner, schema, after, hanswers, hwinner, hbefore, hafter⟩ :=
          ih hstill hrest
        refine ⟨(call, call.query.answer table.schemas) :: before, winner, schema,
          after, by rw [hanswers, List.cons_append], hwinner, ?_, hafter⟩
        intro p hp
        rcases List.mem_cons.mp hp with rfl | hp
        · exact hne
        · exact hbefore p hp

/-! ## A client among others and alone -/

theorem answersTo_cons_self (table : Table) (call : Call) (rest : List Call) :
    table.answersTo call.client (call :: rest) = call.query.answer table.schemas ::
      (table.serve call.threshold call.query).table.answersTo call.client rest := by
  simp [answersTo, answerCalls_cons]

theorem answersTo_cons_ne {call : Call} (h : call.client ≠ client) (table : Table)
    (rest : List Call) :
    table.answersTo client (call :: rest) =
      (table.serve call.threshold call.query).table.answersTo client rest := by
  simp [answersTo, answerCalls_cons, h]

/-- A client is answered as by a table of its own that agrees on the names it
uses, if no other client registers any of these. -/
theorem answersTo_eq_alone
    (hnamed : ∀ call ∈ ownCalls client schedule, call.query.name?.isSome)
    (hforeign : ∀ call ∈ ownCalls client schedule, ∀ foreign ∈ schedule,
      foreign.client ≠ client → ∀ name schema, foreign.query = .register name schema →
        call.query.name? ≠ some name)
    (hsame : ∀ call ∈ ownCalls client schedule, ∀ name, call.query.name? = some name →
      table.get? name = alone.get? name) :
    table.answersTo client schedule =
      (alone.answerCalls (ownCalls client schedule)).map Prod.snd := by
  induction schedule generalizing table alone with
  | nil => rfl
  | cons call rest ih =>
      have hforeignRest :
          ∀ c ∈ ownCalls client rest, c ∈ ownCalls client (call :: rest) := by
        intro c hc
        rw [mem_ownCalls] at hc ⊢
        exact ⟨List.mem_cons_of_mem _ hc.1, hc.2⟩
      have hnamed' := fun c hc => hnamed c (hforeignRest c hc)
      have hforeign' := fun c hc foreign hm =>
        hforeign c (hforeignRest c hc) foreign (List.mem_cons_of_mem _ hm)
      have hsame' := fun c hc => hsame c (hforeignRest c hc)
      by_cases hown : call.client = client
      · subst hown
        rw [ownCalls_cons_self] at hnamed hsame
        rw [answersTo_cons_self, ownCalls_cons_self, answerCalls_cons, List.map_cons]
        obtain ⟨name, hname⟩ :=
          Option.isSome_iff_exists.mp (hnamed call List.mem_cons_self)
        have hanswer : call.query.answer table.schemas =
            call.query.answer alone.schemas :=
          Query.answer_of_lookup hname (hsame call List.mem_cons_self name hname)
        rw [hanswer, ih hnamed' hforeign']
        -- what the call registers, it registers in both tables
        intro c hc other hother
        rw [get?_serve, get?_serve, hsame' c hc other hother]
      · rw [answersTo_cons_ne hown, ownCalls_cons_ne hown, ih hnamed' hforeign']
        -- the client does not use what a foreign call registers
        intro c hc other hother
        have hne : ∀ schema, call.query ≠ .register other schema := by
          intro schema hschema
          exact hforeign c (hforeignRest c hc) call List.mem_cons_self hown other schema
            hschema hother
        rw [get?_serve_of_ne hne]
        exact hsame' c hc other hother

/-- A name that no other client registers stands in the end for what the client
alone would have made of it. -/
theorem get?_afterCalls_own (hsame : table.get? name = alone.get? name)
    (hforeign : ∀ call ∈ schedule, call.client ≠ client →
      ∀ schema, call.query ≠ .register name schema) :
    (table.afterCalls schedule).get? name =
      (alone.afterCalls (ownCalls client schedule)).get? name := by
  induction schedule generalizing table alone with
  | nil => exact hsame
  | cons call rest ih =>
      have hrest := fun c hc => hforeign c (List.mem_cons_of_mem call hc)
      by_cases hown : call.client = client
      · subst hown
        rw [ownCalls_cons_self, afterCalls_cons, afterCalls_cons]
        refine ih ?_ hrest
        rw [get?_serve, get?_serve, hsame]
      · rw [ownCalls_cons_ne hown, afterCalls_cons]
        refine ih ?_ hrest
        rw [get?_serve_of_ne (hforeign call List.mem_cons_self hown), hsame]

end Table

/-- A name is left to one client: whoever else there is does not register it. -/
theorem Apart.exists_owner {programs : Nat → List Call} (h : Apart programs)
    (name : String) :
    ∃ client, ∀ other, other ≠ client → ∀ call ∈ programs other,
      ∀ schema, call.query ≠ .register name schema := by
  by_cases howner : ∃ client, ∃ call ∈ programs client, ∃ schema,
      call.query = .register name schema
  · obtain ⟨client, call, hm, schema, hquery⟩ := howner
    refine ⟨client, fun other hother foreign hforeign s hs => ?_⟩
    have hname : call.query.name? = some name := by rw [hquery, Query.name?]
    exact h client other (Ne.symm hother) call hm foreign hforeign name s hs hname
  · exact ⟨0, fun other _ call hm schema hquery =>
      howner ⟨other, call, hm, schema, hquery⟩⟩

namespace Table

/-- What a name stands for in the end is settled by the client it is left to. -/
theorem get?_afterCalls_of_apart {programs : Nat → List Call} (h : Apart programs)
    (table : Table) (name : String) :
    ∃ client, ∀ schedule, Interleaves programs schedule →
      (table.afterCalls schedule).get? name =
        (table.afterCalls (programs client)).get? name := by
  obtain ⟨client, hclient⟩ := h.exists_owner name
  refine ⟨client, fun schedule hs => ?_⟩
  rw [← hs client]
  refine get?_afterCalls_own rfl fun call hm hne => ?_
  exact hclient call.client hne call (hs.mem_iff.mpr ⟨hm, rfl⟩)

/-- Of a free name that clients register, exactly one registration succeeds, the
first of all, and from then on the name stands for its schema to everybody. A
name that is taken at the start stands for its schema throughout. If no client
uses a name that another one registers, every client is answered as when it runs
alone, and in all schedules the names stand for the same schemas in the end. -/
theorem clients_share_first_registrations (table : Table)
    {programs : Nat → List Call} {schedule : List Call}
    (h : Interleaves programs schedule) :
    (∀ name, table.contains name = false →
      (∃ client, ∃ call ∈ programs client, ∃ schema, call.query =
        .register name schema) →
        ∃ before call schema after,
          table.answerCalls schedule = before ++ (call, .registered) :: after ∧
            call.query = .register name schema ∧
            (∀ p ∈ before, ∀ other, p.1.query ≠ .register name other) ∧
            StandsFor name schema after ∧
              (table.afterCalls schedule).get? name = some schema) ∧
      (∀ name schema, table.get? name = some schema →
        StandsFor name schema (table.answerCalls schedule) ∧
          (table.afterCalls schedule).get? name = some schema) ∧
      (AboutNames programs → Apart programs →
        (∀ client, table.answersTo client schedule =
          (table.answerCalls (programs client)).map Prod.snd) ∧
        ∀ other, Interleaves programs other → ∀ name,
          (table.afterCalls other).get? name =
            (table.afterCalls schedule).get? name) := by
  refine ⟨?free, fun name schema hname =>
    ⟨standsFor_of_known hname, get?_afterCalls_of_known hname⟩,
    fun hnamed hapart => ⟨?alone, ?same⟩⟩
  case free =>
    rintro name hfree ⟨client, call, hm, hcall⟩
    refine exists_first_registration (contains_eq_false_iff.mp hfree) ⟨call, ?_, hcall⟩
    exact (h.mem_iff.mp hm).1
  case alone =>
    intro client
    rw [← h client]
    refine answersTo_eq_alone ?_ ?_ fun _ _ _ _ => rfl
    · rw [h client]
      exact hnamed client
    · intro call hm foreign hforeign hne name schema hquery
      rw [h client] at hm
      exact hapart client foreign.client (Ne.symm hne) call hm foreign
        (h.mem_iff.mpr ⟨hforeign, rfl⟩) name schema hquery
  case same =>
    intro other hother name
    obtain ⟨client, hclient⟩ := get?_afterCalls_of_apart hapart table name
    rw [hclient other hother, hclient schedule h]

/-- A table in which `note` stands for a string. -/
def notes : Table :=
  (empty.serve 64 (.register "note" (.primitive .string))).table

/-- Two clients register `id`, and client 0 registers `note` too. -/
def contested : List Call :=
  [⟨1, 64, .register "id" (.primitive .string)⟩,
    ⟨0, 0, .register "id" (.primitive .number)⟩,
    ⟨0, 0, .register "note" (.primitive .null)⟩, ⟨0, 0, .batch "id" [.number 4 0]⟩]

/-- Two clients register a name of their own and use it and `note`. -/
def separate : List Call :=
  [⟨0, 64, .register "width" (.primitive .number)⟩,
    ⟨1, 0, .register "title" (.primitive .string)⟩,
    ⟨0, 64, .validate "width" .null⟩, ⟨1, 0, .batch "title" [.null]⟩,
      ⟨1, 0, .get "note"⟩]

/-- The same, one client after the other. -/
def separateInTurn : List Call :=
  [⟨1, 0, .register "title" (.primitive .string)⟩, ⟨1, 0, .batch "title" [.null]⟩,
    ⟨1, 0, .get "note"⟩, ⟨0, 64, .register "width" (.primitive .number)⟩,
    ⟨0, 64, .validate "width" .null⟩]

theorem separate_interleaves :
    Interleaves (fun client => ownCalls client separate) separateInTurn := by
  intro client
  by_cases h₀ : 0 = client
  · subst h₀
    rfl
  · by_cases h₁ : 1 = client
    · subst h₁
      rfl
    · simp [ownCalls, separate, separateInTurn, h₀, h₁]

theorem separate_aboutNames : AboutNames fun client => ownCalls client separate := by
  intro client call hm
  have hm := (mem_ownCalls.mp hm).1
  simp only [separate, List.mem_cons, List.not_mem_nil, or_false] at hm
  rcases hm with rfl | rfl | rfl | rfl | rfl <;> rfl

theorem separate_apart : Apart fun client => ownCalls client separate := by
  intro client other hne call hcall foreign hforeign name schema hquery
  obtain ⟨hm, rfl⟩ := mem_ownCalls.mp hcall
  obtain ⟨hf, rfl⟩ := mem_ownCalls.mp hforeign
  simp only [separate, List.mem_cons, List.not_mem_nil, or_false] at hm hf
  -- two calls register something, and each is foreign to the calls of one client
  rcases hf with rfl | rfl | rfl | rfl | rfl <;> cases hquery
  · rcases hm with rfl | rfl | rfl | rfl | rfl <;> simp [Query.name?] at hne ⊢
  · rcases hm with rfl | rfl | rfl | rfl | rfl <;> simp [Query.name?] at hne ⊢

/-- Client 1 is first with `id`, and `note` is taken. Clients with names of their own
are answered as if alone, and may as well take turns. -/
theorem notes_shared :
    (∃ before call schema after,
      notes.answerCalls contested = before ++ (call, .registered) :: after ∧
        call.query = .register "id" schema ∧
        (∀ p ∈ before, ∀ other, p.1.query ≠ .register "id" other) ∧
        StandsFor "id" schema after ∧
          (notes.afterCalls contested).get? "id" = some schema) ∧
      StandsFor "note" (.primitive .string) (notes.answerCalls contested) ∧
      notes.answersTo 1 separate =
        (notes.answerCalls (ownCalls 1 separate)).map Prod.snd ∧
      ∀ name, (notes.afterCalls separateInTurn).get? name =
        (notes.afterCalls separate).get? name := by
  have hcontested : Interleaves (fun client => ownCalls client contested) contested :=
    fun _ => rfl
  have hseparate : Interleaves (fun client => ownCalls client separate) separate :=
    fun _ => rfl
  obtain ⟨hfree, htaken, _⟩ := clients_share_first_registrations notes hcontested
  obtain ⟨_, _, hapart⟩ := clients_share_first_registrations notes hseparate
  obtain ⟨halone, hsame⟩ := hapart separate_aboutNames separate_apart
  refine ⟨hfree "id" rfl ?_, (htaken "note" _ rfl).1, halone 1,
    hsame separateInTurn separate_interleaves⟩
  exact ⟨1, ⟨1, 64, .register "id" (.primitive .string)⟩, .head _,
    .primitive .string, rfl⟩

end Table

/-! ## Handles of one table -/

namespace Registry

/-- A call through a handle of table `t` is a call on that table. -/
theorem step_call {registry : Registry} {number t : Nat} {call : Call}
    (h : registry.handles[number]? = some ⟨t, call.threshold⟩) :
    let reply := (registry.tables.getD t .empty).serve call.threshold call.query
    let outcome := registry.step (.ask number call.query)
    outcome.answer = reply.answer ∧ outcome.registry.handles = registry.handles ∧
      outcome.registry.tables.getD t .empty = reply.table := by
  intro reply outcome
  have hm := List.mem_of_getElem? h
  have houtcome :
      outcome = ⟨registry.replace ⟨t, call.threshold⟩ reply.table, reply.answer,
      reply.events⟩ := by
    show registry.step (.ask number call.query) = _
    rw [Registry.step, through_of_some h]
    rfl
  rw [houtcome]
  refine ⟨rfl, rfl, ?_⟩
  exact table_replace_of_eq hm rfl reply.table

/-- A run through handles of one table is a schedule of calls on that table. -/
theorem run_calls {registry : Registry} {t : Nat} {calls : List (Nat × Call)}
    (h : ∀ p ∈ calls, registry.handles[p.1]? = some ⟨t, p.2.threshold⟩) :
    let trace := registry.run (calls.map fun p => .ask p.1 p.2.query)
    let table := registry.tables.getD t .empty
    trace.answers = (table.answerCalls (calls.map Prod.snd)).map Prod.snd ∧
      trace.registry.tables.getD t .empty = table.afterCalls (calls.map Prod.snd) := by
  induction calls generalizing registry with
  | nil => exact ⟨rfl, rfl⟩
  | cons p rest ih =>
      obtain ⟨hanswer, hhandles, htable⟩ := step_call (h p List.mem_cons_self)
      have hkept :
          ∀ q ∈ rest, (registry.step (.ask p.1 p.2.query)).registry.handles[q.1]? =
          some ⟨t, q.2.threshold⟩ := by
        intro q hq
        rw [hhandles]
        exact h q (List.mem_cons_of_mem _ hq)
      obtain ⟨hanswers, hafter⟩ := ih hkept
      simp only [List.map_cons, run, Table.answerCalls, Table.afterCalls_cons]
      rw [hanswer, ← htable]
      exact ⟨congrArg _ hanswers, hafter⟩

end Registry

end JsonShape
