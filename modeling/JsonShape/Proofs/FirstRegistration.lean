import JsonShape.Proofs.Ancestry

/-!
# First registration — what an answer of a registry depends on

In a run every answer follows from the registrations made before in the same
table, and of these from the first one of each name alone. Handles share a
table exactly when they are connected; nothing else that happens in the run
shows in an answer.
-/

namespace JsonShape

theorem Lineage.registrations_append (lineage : Lineage) (table : Nat)
    (before after : List Step) :
    lineage.registrations table (before ++ after) =
      lineage.registrations table before ++
        (lineage.afterAll before).registrations table after := by
  induction before generalizing lineage with
  | nil => rfl
  | cons step rest ih =>
      rw [List.cons_append, Lineage.registrations, Lineage.registrations, ih,
        List.append_assoc]
      rfl

theorem registeredIn_concat (before : List Step) (step : Step) (table : Nat) :
    registeredIn (before ++ [step]) table =
      registeredIn before table ++
        (Lineage.initial.afterAll before).registration table step := by
  rw [registeredIn, Lineage.registrations_append, Lineage.registrations,
    Lineage.registrations, List.append_nil]
  rfl

theorem answerAfter_ask {before : List Step} {number table : Nat}
    (h : ownerAfter before number = some table) (query : Query) :
    (Step.ask number query).answerAfter before =
      query.answer (registeredIn before table) := by
  have howner : (Lineage.initial.afterAll before).owners[number]? = some table := h
  rw [Step.answerAfter, Step.answerIn, howner]

/-- A name gets a meaning in a table by a registration there that is answered
as one; no other step gives it any or takes it away. -/
theorem lookup_registeredIn_concat {before : List Step} {step : Step} {table : Nat}
    (h : ∀ number name schema, step = .ask number (.register name schema) →
      ownerAfter before number = some table → step.answerAfter before ≠ .registered)
    (name : String) :
    (registeredIn (before ++ [step]) table).lookup name =
      (registeredIn before table).lookup name := by
  rw [registeredIn_concat]
  match step with
  | .create | .share _ | .shareFrom _ _ => exact congrArg _ (List.append_nil _)
  | .ask number query =>
      rw [Lineage.registration_ask]
      by_cases howner : (Lineage.initial.afterAll before).owners[number]? = some table
      · rw [if_pos howner]
        cases query with
        | register new schema =>
            refine Entries.lookup_concat_of_known ?_ schema name
            -- else the registration would have been the first
            by_contra hfree
            refine h number new schema rfl howner ?_
            rw [answerAfter_ask howner, Query.answer, if_neg hfree]
        | _ => exact congrArg _ (List.append_nil _)
      · rw [if_neg howner, List.append_nil]

namespace Registry

theorem answers_run_at (before : List Step) (step : Step) (after : List Step) :
    (initial.run (before ++ step :: after)).answers[before.length]? =
      some (step.answerAfter before) := by
  rw [answers_at, (reflects_run before).answer_eq]
  rfl

/-- Every answer of a run is told by the registrations made before it in the
table of the handle, where the first one of a name counts. The handles that
reach one table are those that are connected by sharing. A query that is not
answered as a registration leaves the registry as it is. No step but such a
registration in the table itself has a bearing on what a name means there, and
tables in which names mean the same answer alike. -/
theorem first_registration_counts (before : List Step) (step : Step)
    (after : List Step) :
    (initial.run (before ++ step :: after)).answers[before.length]? =
        some (step.answerAfter before) ∧
      (∀ h k, h < (initial.run before).registry.handles.length →
        (ownerAfter before h = ownerAfter before k ↔
          Relation.EqvGen (MadeFrom before) h k)) ∧
      (∀ number query, step = .ask number query →
        step.answerAfter before ≠ .registered →
        ((initial.run before).registry.step step).registry =
          (initial.run before).registry) ∧
      (∀ table,
        (∀ number name schema, step = .ask number (.register name schema) →
          ownerAfter before number = some table →
            step.answerAfter before ≠ .registered) →
        ∀ name, (registeredIn (before ++ [step]) table).lookup name =
          (registeredIn before table).lookup name) ∧
      (∀ other h k t u query, ownerAfter before h = some t →
        ownerAfter other k = some u →
        (∀ name, (registeredIn before t).lookup name =
          (registeredIn other u).lookup name) →
        (Step.ask h query).answerAfter before =
          (Step.ask k query).answerAfter other) := by
  refine ⟨answers_run_at before step after,
    fun h k hlt => owner_eq_iff_connected hlt k, ?_,
    fun table h name => lookup_registeredIn_concat h name, ?_⟩
  · rintro number query rfl hanswer
    refine step_ask_eq ?_
    rw [(reflects_run before).answer_eq]
    exact hanswer
  · intro other h k t u query hh hk hsame
    rw [answerAfter_ask hh, answerAfter_ask hk]
    exact query.answer_congr hsame

/-- Handle 1 shares the first table, handle 2 has a table of its own, and each
table gives the name `id` a meaning. -/
def twoTables : List Step :=
  [.share 0, .create, .ask 0 (.register "id" (.primitive .number)),
    .ask 2 (.register "id" (.primitive .string))]

/-- A second registration of `id` through the shared handle is refused and
changes nothing. Queries are answered there as in a registry that has seen the
first registration only. -/
theorem two_tables_first_counts :
    (initial.run
      (twoTables ++ .ask 1 (.register "id" (.primitive .boolean)) :: [])).answers[4]? =
        some (.refused (.duplicateName "id")) ∧
      Relation.EqvGen (MadeFrom twoTables) 0 1 ∧
      ¬ Relation.EqvGen (MadeFrom twoTables) 0 2 ∧
      ((initial.run twoTables).registry.step
        (.ask 1 (.register "id" (.primitive .boolean)))).registry =
          (initial.run twoTables).registry ∧
      (registeredIn (twoTables ++ [.ask 1 (.register "id" (.primitive .boolean))])
        0).lookup "id" = some (.primitive .number) ∧
      ∀ query, (Step.ask 1 query).answerAfter twoTables =
        (Step.ask 0 query).answerAfter
          [.ask 0 (.register "id" (.primitive .number))] := by
  have hrefused :
      (Step.ask 1 (.register "id" (.primitive .boolean))).answerAfter twoTables =
        .refused (.duplicateName "id") := rfl
  have hne : (Step.ask 1 (.register "id" (.primitive .boolean))).answerAfter twoTables ≠
      .registered := by
    rw [hrefused]
    exact nofun
  obtain ⟨hanswer, hconnected, hkept, hmeaning, halike⟩ :=
    first_registration_counts twoTables
      (.ask 1 (.register "id" (.primitive .boolean))) []
  have hlt : 0 < (initial.run twoTables).registry.handles.length := by decide
  refine ⟨hanswer, (hconnected 0 1 hlt).mp rfl, fun h => ?_, hkept 1 _ rfl hne, ?_,
    fun query => ?_⟩
  · exact absurd ((hconnected 0 2 hlt).mpr h) (by decide)
  · rw [hmeaning 0 fun _ _ _ _ _ => hne]
    rfl
  · exact halike [.ask 0 (.register "id" (.primitive .number))] 1 0 0 0 query rfl rfl
      fun _ => rfl

end Registry

end JsonShape
