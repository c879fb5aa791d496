import JsonShape.Proofs.Answering
import Mathlib.Data.List.OfFn
import Mathlib.Logic.Equiv.Basic

/-!
# Batches — a batch judges each document on its own

A batch is answered by one verdict per document, in their order, and each
verdict is what judging that document alone is answered. How many documents there
are decides whether they are judged in turn or each in a task, but it decides no
verdict; so handles of one table answer batches alike, and batches may be cut,
put together and rearranged.
-/

namespace JsonShape

namespace Registry

variable {registry : Registry} {number : Nat}

/-- One verdict per document, in their order: what judging it alone through the
same handle is answered. -/
structure JudgesEach (registry : Registry) (number : Nat) (name : String)
    (documents : List Value) (verdicts : List Verdict) : Prop where
  length : verdicts.length = documents.length
  accepted : ∀ (i : Nat) document, documents[i]? = some document →
    (verdicts[i]? = some (.ok ()) ↔
      registry.ask number (.validate name document) = .accepted)
  rejected : ∀ (i : Nat) document failure, documents[i]? = some document →
    (verdicts[i]? = some (.error failure) ↔
      registry.ask number (.validate name document) = .refused (.invalid failure))

/-- A batch and a single document are refused for want of a schema alike. -/
theorem ask_batch_notFound_iff {handle : Handle}
    (h : registry.handles[number]? = some handle) (name : String)
    (documents : List Value) (document : Value) :
    registry.ask number (.batch name documents) = .refused (.schemaNotFound name) ↔
      registry.ask number (.validate name document) =
        .refused (.schemaNotFound name) := by
  rw [ask_eq h, ask_eq h, Query.answer_batch_notFound_iff,
    Query.answer_validate_notFound_iff]

/-- Under a name that is known the batch is answered by the verdicts of the
documents. -/
theorem ask_batch_of_known {handle : Handle}
    (h : registry.handles[number]? = some handle) {name : String} {schema : Schema}
    (hname : (registry.table handle).get? name = some schema)
    (documents : List Value) :
    registry.ask number (.batch name documents) =
      .verdicts (documents.map fun document => schema.check (some document) .root) := by
  rw [ask_eq h]
  exact Query.answer_batch_of_known hname documents

theorem judgesEach_of_known {handle : Handle}
    (h : registry.handles[number]? = some handle) {name : String} {schema : Schema}
    (hname : (registry.table handle).get? name = some schema)
    (documents : List Value) :
    registry.JudgesEach number name documents
      (documents.map fun document => schema.check (some document) .root) where
  length := List.length_map _
  accepted i document hi := by
    rw [ask_eq h, Query.answer_validate_accepted_iff hname, List.getElem?_map, hi]
    simp
  rejected i document failure hi := by
    rw [ask_eq h, Query.answer_validate_invalid_iff hname, List.getElem?_map, hi]
    simp

/-- A batch is not refused only under a name that is known. -/
theorem exists_of_ask_batch {handle : Handle}
    (h : registry.handles[number]? = some handle) {name : String}
    {documents : List Value}
    (hbatch : registry.ask number (.batch name documents) ≠
      .refused (.schemaNotFound name)) :
    ∃ schema, (registry.table handle).get? name = some schema := by
  cases hname : (registry.table handle).get? name with
  | some schema => exact ⟨schema, rfl⟩
  | none =>
      rw [ask_eq h] at hbatch
      exact absurd (Query.answer_batch_notFound_iff.mpr hname) hbatch

theorem exists_of_ask_verdicts {handle : Handle}
    (h : registry.handles[number]? = some handle) {name : String}
    {documents : List Value} {verdicts : List Verdict}
    (hbatch : registry.ask number (.batch name documents) = .verdicts verdicts) :
    ∃ schema, (registry.table handle).get? name = some schema ∧
      verdicts = documents.map fun document => schema.check (some document) .root := by
  have hne : registry.ask number (.batch name documents) ≠
      .refused (.schemaNotFound name) := by
    rw [hbatch]
    exact nofun
  obtain ⟨schema, hschema⟩ := exists_of_ask_batch h hne
  rw [ask_batch_of_known h hschema] at hbatch
  exact ⟨schema, hschema, (Answer.verdicts.inj hbatch).symm⟩

/-- Handles of one table answer alike, whatever their thresholds. -/
theorem ask_eq_of_table {handle other : Handle} {k : Nat}
    (h : registry.handles[number]? = some handle)
    (hk : registry.handles[k]? = some other) (htable : other.table = handle.table)
    (query : Query) : registry.ask k query = registry.ask number query := by
  rw [ask_eq h, ask_eq hk, table, htable, ← table]

/-- So does a handle that is made with a threshold of its own. -/
theorem ask_shareFrom {handle : Handle}
    (h : registry.handles[number]? = some handle) (threshold : Nat) (query : Query) :
    (registry.step (.shareFrom number threshold)).registry.ask
      registry.handles.length query =
      registry.ask number query := by
  have hmade : (registry.step (.shareFrom number threshold)).registry =
      registry.share handle (List.mem_of_getElem? h) threshold := by
    rw [Registry.step, through_of_some h]
  have hlast : (registry.share handle (List.mem_of_getElem? h) threshold).handles[
      registry.handles.length]? = some ⟨handle.table, threshold⟩ :=
        List.getElem?_concat_length
  rw [hmade, ask_eq hlast, ask_eq h, table_share]
  rfl

/-- A batch is refused exactly when each of its documents alone would be refused
for want of a schema, and is otherwise answered by what each document alone is
answered. So all handles of a table answer it alike, two batches in one go are
answered by the verdicts of the one and then of the other, and documents in
another order by the verdicts in that order. -/
theorem batch_is_pointwise (h : number < registry.handles.length) (name : String)
    (documents : List Value) :
    (∀ document,
      registry.ask number (.batch name documents) = .refused (.schemaNotFound name) ↔
        registry.ask number (.validate name document) =
          .refused (.schemaNotFound name)) ∧
      (registry.ask number (.batch name documents) ≠ .refused (.schemaNotFound name) →
        ∃ verdicts, registry.ask number (.batch name documents) = .verdicts verdicts ∧
          registry.JudgesEach number name documents verdicts) ∧
      (∀ other : Nat, (registry.handles[other]?).map Handle.table =
          (registry.handles[number]?).map Handle.table →
        registry.ask other (.batch name documents) =
          registry.ask number (.batch name documents)) ∧
      (∀ threshold, (registry.step (.shareFrom number threshold)).registry.ask
          registry.handles.length (.batch name documents) =
        registry.ask number (.batch name documents)) ∧
      (∀ more verdicts others, registry.ask number (.batch name documents) =
        .verdicts verdicts →
        registry.ask number (.batch name more) = .verdicts others →
          registry.ask number (.batch name (documents ++ more)) =
            .verdicts (verdicts ++ others)) ∧
      ∀ (n : Nat) (order : Equiv.Perm (Fin n)) (document : Fin n → Value)
        (verdict : Fin n → Verdict),
        registry.ask number (.batch name (List.ofFn document)) =
          .verdicts (List.ofFn verdict) →
          registry.ask number (.batch name (List.ofFn fun i => document (order i))) =
            .verdicts (List.ofFn fun i => verdict (order i)) := by
  obtain ⟨handle, hhandle⟩ : ∃ handle, registry.handles[number]? = some handle :=
    ⟨_, List.getElem?_eq_getElem h⟩
  refine ⟨ask_batch_notFound_iff hhandle name documents, ?each, ?alike,
    fun threshold => ask_shareFrom hhandle threshold _, ?joined, ?rearranged⟩
  case each =>
    intro hbatch
    obtain ⟨schema, hschema⟩ := exists_of_ask_batch hhandle hbatch
    exact ⟨_, ask_batch_of_known hhandle hschema documents,
      judgesEach_of_known hhandle hschema documents⟩
  case alike =>
    intro k hk
    rw [hhandle, Option.map_some, Option.map_eq_some_iff] at hk
    obtain ⟨other, hother, htable⟩ := hk
    exact ask_eq_of_table hhandle hother htable _
  case joined =>
    intro more verdicts others hverdicts hothers
    obtain ⟨schema, hschema, rfl⟩ := exists_of_ask_verdicts hhandle hverdicts
    rw [ask_batch_of_known hhandle hschema] at hothers
    rw [ask_batch_of_known hhandle hschema, List.map_append,
      Answer.verdicts.inj hothers]
  case rearranged =>
    intro n order document verdict hverdict
    obtain ⟨schema, hschema, hverdicts⟩ := exists_of_ask_verdicts hhandle hverdict
    rw [List.map_ofFn] at hverdicts
    -- position by position, a verdict is that of the document there
    have hpointwise : verdict = fun i => schema.check (some (document i)) .root :=
      List.ofFn_injective hverdicts
    rw [ask_batch_of_known hhandle hschema, List.map_ofFn, hpointwise]
    rfl

/-- A table of lengths. Handle 0 spreads its batches from 64 documents on, handle 1
spreads them all. -/
def lengths : Registry :=
  (initial.run
    [.ask 0 (.register "length" (.primitive .number)), .shareFrom 0 0]).registry

/-- What a document is told that is no length. -/
def notLength : Verdict :=
  .error ((Mismatch.wrongType .number (.primitive .null)).failureAt .root)

/-- A document that is no length is told so, and the others are accepted, in whatever
order and through whichever handle. Of a width nothing is known, not even for
a batch without documents. -/
theorem lengths_are_judged_each :
    1 < lengths.handles.length ∧
      lengths.ask 1 (.batch "width" []) = .refused (.schemaNotFound "width") ∧
      (∃ verdicts, lengths.ask 1 (.batch "length" [.null, .number 4 0]) =
        .verdicts verdicts ∧
        lengths.JudgesEach 1 "length" [.null, .number 4 0] verdicts) ∧
      lengths.ask 0 (.batch "length" [.null, .number 4 0]) =
        lengths.ask 1 (.batch "length" [.null, .number 4 0]) ∧
      lengths.ask 1 (.batch "length" ([.null, .number 4 0] ++ [.null])) =
        .verdicts ([notLength, .ok ()] ++ [notLength]) ∧
      lengths.ask 1 (.batch "length" [.number 4 0, .null]) =
        .verdicts [.ok (), notLength] := by
  have h : 1 < lengths.handles.length := by decide
  have hbatch : ∀ documents, lengths.ask 1 (.batch "length" documents) =
      .verdicts (documents.map fun document =>
        (Schema.primitive .number).check (some document) .root) :=
    ask_batch_of_known (show lengths.handles[1]? = some ⟨0, 0⟩ from rfl) rfl
  obtain ⟨_, heach, halike, _, hjoined, hrearranged⟩ :=
    batch_is_pointwise h "length" [.null, .number 4 0]
  refine ⟨h, ?_, heach ?_, halike 0 rfl, ?_, ?_⟩
  · exact ((batch_is_pointwise h "width" []).1 .null).mpr rfl
  · rw [hbatch]
    exact nofun
  · exact hjoined [.null] _ _ (hbatch _) (hbatch _)
  · let document : Fin 2 → Value := fun i => [.null, .number 4 0][i]
    have hordered := hrearranged 2 (Equiv.swap 0 1) document
      (fun i => (Schema.primitive .number).check (some (document i)) .root) (hbatch _)
    exact hordered

end Registry

end JsonShape
