import JsonShape.Proofs.RegistryHistory
import Mathlib.Logic.Relation

/-!
# Ancestry — which handles share a table

A handle made from another one reaches the same table, and a created one a
table of its own. So two handles reach one table exactly when a chain of such
makings, up and down, connects them: in every run, whatever else happens in it.
-/

namespace JsonShape

theorem Lineage.afterAll_append (lineage : Lineage) (before after : List Step) :
    lineage.afterAll (before ++ after) = (lineage.afterAll before).afterAll after :=
  List.foldl_append

/-! ## A handle keeps its table -/

theorem Lineage.owners_prefix_after (lineage : Lineage) (step : Step) :
    lineage.owners <+: (lineage.after step).owners := by
  have hinherit : ∀ number, lineage.owners <+: (lineage.inherit number).owners := by
    intro number
    rw [inherit]
    split
    · exact List.prefix_append _ _
    · exact List.prefix_rfl
  cases step with
  | create => exact List.prefix_append _ _
  | share number => exact hinherit number
  | shareFrom number _ => exact hinherit number
  | ask _ _ => exact List.prefix_rfl

theorem Lineage.owners_prefix_afterAll (lineage : Lineage) (steps : List Step) :
    lineage.owners <+: (lineage.afterAll steps).owners := by
  induction steps generalizing lineage with
  | nil => exact List.prefix_rfl
  | cons step rest ih => exact (lineage.owners_prefix_after step).trans (ih _)

theorem ownerAfter_append {before : List Step} {number table : Nat}
    (h : ownerAfter before number = some table) (after : List Step) :
    ownerAfter (before ++ after) number = some table := by
  rw [ownerAfter, Lineage.afterAll_append]
  obtain ⟨more, hmore⟩ :=
    Lineage.owners_prefix_afterAll (Lineage.initial.afterAll before) after
  obtain ⟨hlt, _⟩ := List.getElem?_eq_some_iff.mp h
  rw [← hmore, List.getElem?_append_left hlt]
  exact h

/-- There are as many handles as are told of. -/
theorem length_handles_run (steps : List Step) :
    (Registry.initial.run steps).registry.handles.length =
      (Lineage.initial.afterAll steps).owners.length := by
  rw [← (Registry.reflects_run steps).owners, List.length_map]

/-- A table that is told of is there. -/
theorem owner_lt_tables {steps : List Step} {table : Nat}
    (h : table ∈ (Lineage.initial.afterAll steps).owners) :
    table < (Lineage.initial.afterAll steps).tables := by
  have hreflects := Registry.reflects_run steps
  rw [← hreflects.owners] at h
  obtain ⟨handle, hm, rfl⟩ := List.mem_map.mp h
  rw [← hreflects.tables]
  exact Registry.table_lt _ handle hm

/-! ## Handles that are made from one another -/

theorem Lineage.after_of_parent {step : Step} {parent : Nat}
    (h : step.parent? = some parent) (lineage : Lineage) :
    lineage.after step = lineage.inherit parent := by
  cases step with
  | share number => cases h; rfl
  | shareFrom number threshold => cases h; rfl
  | create => cases h
  | ask number query => cases h

/-- A step that makes no handle from another one leaves the owners as they are,
or adds a handle with a table of its own. -/
theorem Lineage.owners_after_of_no_parent {step : Step} (h : step.parent? = none)
    (lineage : Lineage) :
    (lineage.after step).owners = lineage.owners ∨
      (lineage.after step).owners = lineage.owners ++ [lineage.tables] := by
  cases step with
  | create => exact .inr rfl
  | ask number query => exact .inl rfl
  | share number => cases h
  | shareFrom number threshold => cases h

theorem Lineage.owners_inherit {lineage : Lineage} {parent table : Nat}
    (h : lineage.owners[parent]? = some table) :
    (lineage.inherit parent).owners = lineage.owners ++ [table] := by
  rw [inherit, h]

theorem MadeFrom.owner_eq {steps : List Step} {parent child : Nat}
    (h : MadeFrom steps parent child) :
    ownerAfter steps parent = ownerAfter steps child := by
  obtain @⟨before, after, step, _, rfl, hstep, hparent⟩ := h
  rw [length_handles_run] at hparent ⊢
  have howner : ownerAfter before parent = some _ := List.getElem?_eq_getElem hparent
  have hchild :
      ownerAfter (before ++ [step]) (Lineage.initial.afterAll before).owners.length =
      some (Lineage.initial.afterAll before).owners[parent] := by
    rw [ownerAfter, Lineage.afterAll_append]
    show ((Lineage.initial.afterAll before).after step).owners[_]? = _
    rw [Lineage.after_of_parent hstep, Lineage.owners_inherit howner]
    exact List.getElem?_concat_length
  have hsplit : before ++ step :: after = (before ++ [step]) ++ after := by simp
  rw [ownerAfter_append howner, hsplit, ownerAfter_append hchild]

theorem MadeFrom.append {steps : List Step} {parent child : Nat}
    (h : MadeFrom steps parent child) (more : List Step) :
    MadeFrom (steps ++ more) parent child := by
  obtain @⟨before, after, step, _, rfl, hstep, hparent⟩ := h
  have hsplit : before ++ step :: after ++ more = before ++ step :: (after ++ more) :=
    by simp
  exact .made hsplit hstep hparent

/-! ## Connected handles -/

/-- With one more handle, whatever reaches its table is connected to it. -/
theorem connected_concat {r : Nat → Nat → Prop} {owners : List Nat} {table : Nat}
    (hold : ∀ h k, h < owners.length → owners[h]? = owners[k]? → Relation.EqvGen r h k)
    (hnew : table ∈ owners → ∃ parent, owners[parent]? = some table ∧
      r parent owners.length) :
    ∀ h k, h < (owners ++ [table]).length →
      (owners ++ [table])[h]? = (owners ++ [table])[k]? → Relation.EqvGen r h k := by
  -- an old handle that reaches the table is connected with the parent of the new one
  have hlink : ∀ h, owners[h]? = some table → Relation.EqvGen r h owners.length := by
    intro h hh
    obtain ⟨parent, hparent, hmade⟩ := hnew (List.mem_of_getElem? hh)
    have hlt : h < owners.length := (List.getElem?_eq_some_iff.mp hh).1
    exact (hold h parent hlt (hh.trans hparent.symm)).trans _ _ _ (.rel _ _ hmade)
  intro h k hlt heq
  have hklt : k < (owners ++ [table]).length := by
    rw [List.getElem?_eq_getElem hlt] at heq
    exact (List.getElem?_eq_some_iff.mp heq.symm).1
  rw [List.length_append, List.length_singleton] at hlt hklt
  rcases Nat.lt_succ_iff_lt_or_eq.mp hlt with hh | rfl <;>
    rcases Nat.lt_succ_iff_lt_or_eq.mp hklt with hk | rfl
  · rw [List.getElem?_append_left hh, List.getElem?_append_left hk] at heq
    exact hold h k hh heq
  · rw [List.getElem?_append_left hh, List.getElem?_concat_length] at heq
    exact hlink h heq
  · rw [List.getElem?_append_left hk, List.getElem?_concat_length] at heq
    exact (hlink k heq.symm).symm
  · exact .refl _

theorem connected_of_owner_eq (steps : List Step) :
    ∀ h k, h < (Lineage.initial.afterAll steps).owners.length →
      ownerAfter steps h = ownerAfter steps k →
        Relation.EqvGen (MadeFrom steps) h k := by
  induction steps using List.reverseRecOn with
  | nil =>
      intro h k hlt heq
      -- at the start there is one handle
      obtain rfl : h = 0 := Nat.lt_one_iff.mp hlt
      cases k with
      | zero => exact .refl _
      | succ k => cases heq
  | append_singleton before step ih =>
      -- what was connected before the step still is
      have hold : ∀ h k, h < (Lineage.initial.afterAll before).owners.length →
          ownerAfter before h = ownerAfter before k →
          Relation.EqvGen (MadeFrom (before ++ [step])) h k := fun h k hlt heq =>
        (ih h k hlt heq).mono fun _ _ hmade => hmade.append [step]
      have hafter : Lineage.initial.afterAll (before ++ [step]) =
          (Lineage.initial.afterAll before).after step := Lineage.afterAll_append ..
      simp only [ownerAfter, hafter]
      cases hparent : step.parent? with
      | none =>
          rcases Lineage.owners_after_of_no_parent hparent
            (Lineage.initial.afterAll before) with
            hsame | hmore
          · rw [hsame]
            exact hold
          · rw [hmore]
            refine connected_concat hold fun hmem => ?_
            exact absurd (owner_lt_tables hmem) (Nat.lt_irrefl _)
      | some parent =>
          rw [Lineage.after_of_parent hparent]
          cases howner : (Lineage.initial.afterAll before).owners[parent]? with
          | none =>
              rw [Lineage.inherit, howner]
              exact hold
          | some table =>
              rw [Lineage.owners_inherit howner]
              refine connected_concat hold fun _ => ⟨parent, howner, ?_⟩
              have hlt := (List.getElem?_eq_some_iff.mp howner).1
              rw [← length_handles_run] at hlt ⊢
              exact .made rfl hparent hlt

theorem owner_eq_of_connected {steps : List Step} {h k : Nat}
    (hconnected : Relation.EqvGen (MadeFrom steps) h k) :
    ownerAfter steps h = ownerAfter steps k := by
  induction hconnected with
  | rel parent child hmade => exact hmade.owner_eq
  | refl number => rfl
  | symm a b _ ih => exact ih.symm
  | trans a b c _ _ ihab ihbc => exact ihab.trans ihbc

/-- Handles reach one table exactly when they are connected. -/
theorem owner_eq_iff_connected {steps : List Step} {h : Nat}
    (hlt : h < (Registry.initial.run steps).registry.handles.length) (k : Nat) :
    ownerAfter steps h = ownerAfter steps k ↔ Relation.EqvGen (MadeFrom steps) h k := by
  rw [length_handles_run] at hlt
  exact ⟨connected_of_owner_eq steps h k hlt, owner_eq_of_connected⟩

end JsonShape
