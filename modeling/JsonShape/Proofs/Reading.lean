import JsonShape.Proofs.Layering
import JsonShape.Proofs.Outcome
import JsonShape.Validation.Inspection

/-!
# Reading — what the outcome of a check depends on

A check looks at an object only through the tags that the applied layers read
and through the fields that the applied record declares. Two objects that are
alike in these are judged alike, failure and all: `Layer.check_eq_of_readsAlike`.
What is said of whole documents follows by the induction `Schema.of_applied`,
which hands an object schema what holds of its fields.
-/

namespace JsonShape

/-! ## Tags -/

theorem SameTag.refl (value? : Option Value) : SameTag value? value? :=
  ⟨rfl, rfl⟩

/-- Values that read alike as a tag give the same tag, or the same failure. -/
theorem SameTag.readTag_eq {a b : List (String × Value)} {d : String}
    (h : SameTag (a.lookup d) (b.lookup d)) (path : Path) :
    readTag a d path = readTag b d path := by
  rw [readTag, readTag]
  generalize a.lookup d = x at h ⊢
  generalize b.lookup d = y at h ⊢
  obtain ⟨htype, htext⟩ := h
  rcases x with _ | x <;> rcases y with _ | y
  · rfl
  · exact absurd htype.symm y.dynType_ne_undefined
  · exact absurd htype x.dynType_ne_undefined
  · cases x <;> cases y <;> simp_all [Value.dynType, Value.text?]

/-! ## Leaves and the two loops -/

/-- A kind looks at a value's type only. -/
theorem Schema.check_primitive_congr {v w : Value} (h : v.dynType = w.dynType)
    (kind : Primitive) (path : Path) :
    (Schema.primitive kind).check (some v) path =
      (Schema.primitive kind).check (some w) path := by
  rw [check_primitive, check_primitive, Primitive.check_present,
    Primitive.check_present, h]

theorem checkItems_congr {check : Value → Path → Verdict} {items others : List Value}
    (hlength : items.length = others.length)
    (h : ∀ (i : Nat) x y, items[i]? = some x → others[i]? = some y →
      ∀ path, check x path = check y path) (path : Path) (start : Nat) :
    checkItems check path start items = checkItems check path start others := by
  induction items generalizing others start with
  | nil =>
      cases others with
      | nil => rfl
      | cons y others => cases hlength
  | cons x items ih =>
      cases others with
      | nil => cases hlength
      | cons y others =>
          have hrest :=
            ih (Nat.succ.inj hlength) (fun i u v hu hv => h (i + 1) u v hu hv)
            (start + 1)
          rw [checkItems, checkItems, h 0 x y rfl rfl, hrest]

theorem Record.checkFields_congr {fields : List (String × Schema)}
    {a b : List (String × Value)} {path : Path}
    (h : ∀ name s, (name, s) ∈ fields →
      s.check (a.lookup name) (path.field name) =
      s.check (b.lookup name) (path.field name)) :
    Record.checkFields fields a path = Record.checkFields fields b path := by
  induction fields with
  | nil => rfl
  | cons f rest ih =>
      obtain ⟨name, s⟩ := f
      have hrest := ih fun n t hm => h n t (List.mem_cons_of_mem _ hm)
      rw [Record.checkFields, Record.checkFields, h name s List.mem_cons_self, hrest]

/-! ## Objects -/

/-- Objects that are alike in all that a layer and the layers below it, as the
tags select them, look at. -/
structure Layer.ReadsAlike (l : Layer) (a b : List (String × Value)) : Prop where
  tags : ∀ k ∈ l.applied a, ∀ d, k.discriminator? = some d →
    SameTag (a.lookup d) (b.lookup d)
  fields : ∀ r, .record r ∈ l.applied a → ∀ name s, (name, s) ∈ r.fields →
    ∀ path, s.check (a.lookup name) path = s.check (b.lookup name) path

theorem Layer.ReadsAlike.mono {outer inner : Layer} {a b : List (String × Value)}
    (h : outer.ReadsAlike a b) (hsub : ∀ k ∈ inner.applied a, k ∈ outer.applied a) :
    inner.ReadsAlike a b where
  tags k hk := h.tags k (hsub k hk)
  fields r hr := h.fields r (hsub _ hr)

/-- Objects with the same keys both have a value under a name, or neither has. -/
theorem Entries.lookup_both {α β : Type} {a : Entries α} {b : Entries β}
    (hkeys : ∀ name, name ∈ a.keys ↔ name ∈ b.keys) (name : String) :
    (a.lookup name = none ∧ b.lookup name = none) ∨
      ∃ x y, a.lookup name = some x ∧ b.lookup name = some y := by
  by_cases hname : name ∈ a.keys
  · obtain ⟨x, hx⟩ := Option.isSome_iff_exists.mp (lookup_isSome_iff.mpr hname)
    obtain ⟨y, hy⟩ :=
      Option.isSome_iff_exists.mp (lookup_isSome_iff.mpr ((hkeys name).mp hname))
    exact .inr ⟨x, y, hx, hy⟩
  · have hb : name ∉ b.keys := fun hb => hname ((hkeys name).mpr hb)
    exact .inl ⟨lookup_eq_none_iff.mpr hname, lookup_eq_none_iff.mpr hb⟩

/-- Objects with the same keys are alike if they are under each key that is
looked at. -/
theorem Layer.ReadsAlike.of_keys {l : Layer} {a b : List (String × Value)}
    (hkeys : ∀ name, name ∈ Entries.keys a ↔ name ∈ Entries.keys b)
    (htags : ∀ k ∈ l.applied a, ∀ d, k.discriminator? = some d →
      ∀ x y, a.lookup d = some x → b.lookup d = some y → SameTag (some x) (some y))
    (hfields : ∀ r, .record r ∈ l.applied a → ∀ name s, (name, s) ∈ r.fields →
      ∀ x y, a.lookup name = some x → b.lookup name = some y →
        ∀ path, s.check (some x) path = s.check (some y) path) :
    l.ReadsAlike a b where
  tags k hk d hd := by
    rcases Entries.lookup_both hkeys d with ⟨ha, hb⟩ | ⟨x, y, ha, hb⟩
    · rw [ha, hb]
      exact .refl _
    · rw [ha, hb]
      exact htags k hk d hd x y ha hb
  fields r hr name s hs path := by
    rcases Entries.lookup_both hkeys name with ⟨ha, hb⟩ | ⟨x, y, ha, hb⟩
    · rw [ha, hb]
    · rw [ha, hb]
      exact hfields r hr name s hs x y ha hb path

theorem check_eq_of_readsAlike :
    LayeredCases (fun _ => True)
      (fun l => ∀ a b, l.ReadsAlike a b → ∀ path, l.check a path = l.check b path) where
  primitive _ := trivial
  array _ _ := trivial
  object _ _ := trivial
  record r _ a b h path := by
    rw [Layer.check_record, Layer.check_record]
    apply Record.checkFields_congr
    intro name s hm
    exact h.fields r (Layer.self_mem_applied _ _) name s hm _
  union u ih a b h path := by
    have hread :=
      (h.tags _ (Layer.self_mem_applied _ _) u.discriminator rfl).readTag_eq path
    rw [Layer.check_union, Layer.check_union, ← hread]
    cases htag : readTag a u.discriminator path with
    | error e => rfl
    | ok tag =>
        rw [ok_bind, ok_bind]
        cases hget : u.get? tag with
        | none => rfl
        | some m =>
            -- the member's layers are applied to the same object
            have hbelow := h.mono fun k hk =>
              Layer.mem_applied_union.mpr
                (.inr ⟨tag, m, readTag_eq_ok_iff.mp htag, hget, hk⟩)
            exact (ih tag m (Entries.mem_of_lookup hget)).2 a b hbelow path
  member m ih a b h path := by
    have hread :=
      (h.tags _ (Layer.self_mem_applied _ _) m.discriminator rfl).readTag_eq path
    rw [Layer.check_member, Layer.check_member, Member.check_eq,
      Member.check_eq, ← hread]
    cases htag : readTag a m.discriminator path with
    | error e => rfl
    | ok tag =>
        rw [ok_bind, ok_bind]
        by_cases hv : tag = m.value
        · subst hv
          rw [if_pos rfl, if_pos rfl]
          have hbelow := h.mono fun k hk =>
            Layer.mem_applied_member.mpr (.inr ⟨readTag_eq_ok_iff.mp htag, hk⟩)
          exact ih a b hbelow path
        · rw [if_neg hv, if_neg hv]

theorem Layer.check_eq_of_readsAlike {l : Layer} {a b : List (String × Value)}
    (h : l.ReadsAlike a b) (path : Path) : l.check a path = l.check b path :=
  Layer.of_cases JsonShape.check_eq_of_readsAlike l a b h path

/-! ## Documents -/

theorem Schema.check_object_congr {layer : Layer} {a b : List (String × Value)}
    (h : layer.ReadsAlike a b) (path : Path) :
    (Schema.object layer).check (some (.object a)) path =
      (Schema.object layer).check (some (.object b)) path :=
  Layer.check_eq_of_readsAlike h path

theorem Schema.check_array_congr {element : Schema} {items others : List Value}
    (hlength : items.length = others.length)
    (h : ∀ (i : Nat) x y, items[i]? = some x → others[i]? = some y →
      ∀ path, element.check (some x) path = element.check (some y) path) (path : Path) :
    (Schema.array element).check (some (.array items)) path =
      (Schema.array element).check (some (.array others)) path :=
  checkItems_congr hlength h path 0

/-! ## Applied records -/

/-- The tags of an object lead to one record at most. -/
theorem record_eq_of_applied :
    LayeredCases (fun _ => True)
      (fun l => ∀ entries r q, .record r ∈ l.applied entries →
        .record q ∈ l.applied entries → r = q) where
  primitive _ := trivial
  array _ _ := trivial
  object _ _ := trivial
  record p _ entries r q hr hq := by
    rw [Layer.applied_record, List.mem_singleton] at hr hq
    exact Layer.record.inj (hr.trans hq.symm)
  union u ih entries r q hr hq := by
    rcases Layer.mem_applied_union.mp hr with h | ⟨tag, m, htag, hget, hr⟩
    · cases h
    rcases Layer.mem_applied_union.mp hq with h | ⟨tag', m', htag', hget', hq⟩
    · cases h
    cases Option.some.inj (htag.symm.trans htag')
    cases Option.some.inj (hget.symm.trans hget')
    exact (ih tag m (Entries.mem_of_lookup hget)).2 entries r q hr hq
  member m ih entries r q hr hq := by
    rcases Layer.mem_applied_member.mp hr with h | ⟨_, hr⟩
    · cases h
    rcases Layer.mem_applied_member.mp hq with h | ⟨_, hq⟩
    · cases h
    exact ih entries r q hr hq

/-- What holds of an object schema as soon as it holds of the fields of every
record that may be applied, and of the rest as usual, holds of all schemas. -/
theorem Schema.of_applied {P : Schema → Prop}
    (primitive : ∀ kind, P (.primitive kind))
    (array : ∀ element, P element → P (.array element))
    (object : ∀ layer : Layer,
      (∀ entries r name s, .record r ∈ layer.applied entries →
        (name, s) ∈ r.fields → P s) → P (.object layer))
    (s : Schema) : P s := by
  refine Schema.of_cases
    (Q := fun l =>
      ∀ entries r name s, .record r ∈ l.applied entries → (name, s) ∈ r.fields → P s)
    ⟨primitive, array, object, ?record, ?union, ?member⟩ s
  case record =>
    intro r ih entries q name s hq hs
    rw [Layer.applied_record, List.mem_singleton] at hq
    cases hq
    exact ih name s hs
  case union =>
    intro u ih entries r name s hr hs
    rcases Layer.mem_applied_union.mp hr with h | ⟨tag, m, _, hget, hr⟩
    · cases h
    · exact (ih tag m (Entries.mem_of_lookup hget)).2 entries r name s hr hs
  case member =>
    intro m ih entries r name s hr hs
    rcases Layer.mem_applied_member.mp hr with h | ⟨_, hr⟩
    · cases h
    · exact ih entries r name s hr hs

end JsonShape
