import JsonShape.Proofs.Equality
import JsonShape.Proofs.Writing

/-!
# Congruence — building from equal parts, in whatever order

Records are equal when each name stands for equal schemas in both, and unions when
they read one discriminator and each value stands for equal members. Said by
lookups, equality does not mention the place of an entry, so a builder that is
given equal parts makes equal things whether it appends an entry or replaces one,
and calls about different names may be made in any order.
-/

namespace JsonShape

/-! ## Equality told by lookups -/

namespace Entries

variable {α β : Type}

/-- Entries with distinct keys are reorderings of each other when each key is found
with the same value in both. -/
theorem perm_iff_lookup_eq {a b : Entries α} (ha : a.keys.Nodup) (hb : b.keys.Nodup) :
    a.Perm b ↔ ∀ key, a.lookup key = b.lookup key := by
  refine ⟨fun h => lookup_perm h ha, fun h => ?_⟩
  rw [List.perm_ext_iff_of_nodup (List.Nodup.of_map Prod.fst ha)
    (List.Nodup.of_map Prod.fst hb)]
  rintro ⟨key, value⟩
  rw [← lookup_eq_some_iff ha, ← lookup_eq_some_iff hb, h]

/-- With their values read through `f`, sorted entries are the same when each key
is found with the same in both. -/
theorem sorted_map_eq_iff_lookup (f : α → β) {a b : Entries α} (ha : a.keys.Nodup)
    (hb : b.keys.Nodup) :
    sorted (a.map fun e => (e.1, f e.2)) = sorted (b.map fun e => (e.1, f e.2)) ↔
      ∀ key, (a.lookup key).map f = (b.lookup key).map f := by
  have ha' : (keys (a.map fun e => (e.1, f e.2))).Nodup := (keys_map f a).symm ▸ ha
  have hb' : (keys (b.map fun e => (e.1, f e.2))).Nodup := (keys_map f b).symm ▸ hb
  rw [sorted_eq_iff_perm ha', perm_iff_lookup_eq ha' hb']
  simp only [lookup_map]

end Entries

theorem Record.beq_iff_get? {r q : Record} (hr : (Layer.record r).WellFormed)
    (hq : (Layer.record q).WellFormed) :
    (r == q) = true ↔
      ∀ name, (r.get? name).map Schema.canonical =
        (q.get? name).map Schema.canonical := by
  refine (Layer.beq_iff_canonical_eq hr hq).trans ?_
  rw [Layer.canonical_record, Layer.canonical_record, Layer.record.injEq,
    Record.mk.injEq]
  exact Entries.sorted_map_eq_iff_lookup _ (Layer.wellFormed_record.mp hr).1
    (Layer.wellFormed_record.mp hq).1

theorem Union.beq_iff_get? {u w : Union} (hu : (Layer.union u).WellFormed)
    (hw : (Layer.union w).WellFormed) :
    (u == w) = true ↔ u.discriminator = w.discriminator ∧
      ∀ value, (u.get? value).map Member.canonical =
        (w.get? value).map Member.canonical := by
  refine (Layer.beq_iff_canonical_eq hu hw).trans ?_
  rw [Layer.canonical_union, Layer.canonical_union, Layer.union.injEq, Union.mk.injEq]
  refine and_congr_right fun _ => ?_
  exact Entries.sorted_map_eq_iff_lookup _ (Layer.wellFormed_union.mp hu).1
    (Layer.wellFormed_union.mp hw).1

/-! ## Equal parts -/

/-- Records, unions and members are built as the layers that they are. -/
def Record.Built (r : Record) : Prop := (Layer.record r).Built

def Union.Built (u : Union) : Prop := (Layer.union u).Built

def Member.Built (m : Member) : Prop := (Layer.member m).Built

instance (r : Record) :
    Decidable r.Built := inferInstanceAs (Decidable (Layer.record r).Built)

instance (u : Union) :
    Decidable u.Built := inferInstanceAs (Decidable (Layer.union u).Built)

instance (m : Member) :
    Decidable m.Built := inferInstanceAs (Decidable (Layer.member m).Built)

/-- Two things that were built and are equal. -/
structure Same {α : Type} [BEq α] (built : α → Prop) (a b : α) : Prop where
  left : built a
  right : built b
  equal : (a == b) = true

instance {α : Type} [BEq α] (built : α → Prop) [DecidablePred built] (a b : α) :
    Decidable (Same built a b) :=
  decidable_of_iff (built a ∧ built b ∧ (a == b) = true)
    ⟨fun ⟨ha, hb, h⟩ => ⟨ha, hb, h⟩, fun ⟨ha, hb, h⟩ => ⟨ha, hb, h⟩⟩

namespace Same

variable {s t : Schema} {k l : Layer} {r q : Record} {u w : Union} {m n : Member}

theorem canonical_schema (h : Same Schema.Built s t) : s.canonical = t.canonical :=
  (Schema.beq_iff_canonical_eq h.left.wellFormed h.right.wellFormed).mp h.equal

theorem canonical_member (h : Same Member.Built m n) : m.canonical = n.canonical :=
  Layer.member.inj
    ((Layer.beq_iff_canonical_eq h.left.wellFormed h.right.wellFormed).mp h.equal)

/-- Records in which each name stands for schemas of one canonical form. -/
theorem of_get?_record (hr : r.Built) (hq : q.Built)
    (h : ∀ name, (r.get? name).map Schema.canonical =
      (q.get? name).map Schema.canonical) :
    Same Record.Built r q :=
  ⟨hr, hq, (Record.beq_iff_get? hr.wellFormed hq.wellFormed).mpr h⟩

theorem get?_record (h : Same Record.Built r q) (name : String) :
    (r.get? name).map Schema.canonical = (q.get? name).map Schema.canonical :=
  (Record.beq_iff_get? h.left.wellFormed h.right.wellFormed).mp h.equal name

theorem of_get?_union (hu : u.Built) (hw : w.Built)
    (hd : u.discriminator = w.discriminator)
    (h : ∀ value, (u.get? value).map Member.canonical =
      (w.get? value).map Member.canonical) :
    Same Union.Built u w :=
  ⟨hu, hw, (Union.beq_iff_get? hu.wellFormed hw.wellFormed).mpr ⟨hd, h⟩⟩

theorem get?_union (h : Same Union.Built u w) :
    u.discriminator = w.discriminator ∧
      ∀ value, (u.get? value).map Member.canonical =
        (w.get? value).map Member.canonical :=
  (Union.beq_iff_get? h.left.wellFormed h.right.wellFormed).mp h.equal

/-! ## Builders on equal parts -/

theorem array (h : Same Schema.Built s t) : Same Schema.Built (.array s) (.array t) :=
  ⟨.array h.left, .array h.right, h.equal⟩

theorem object (h : Same Layer.Built k l) : Same Schema.Built (.object k) (.object l) :=
  ⟨.object h.left, .object h.right, h.equal⟩

theorem record (h : Same Record.Built r q) : Same Layer.Built (.record r) (.record q) :=
  ⟨h.left, h.right, h.equal⟩

theorem union (h : Same Union.Built u w) : Same Layer.Built (.union u) (.union w) :=
  ⟨h.left, h.right, h.equal⟩

theorem member (h : Same Member.Built m n) : Same Layer.Built (.member m) (.member n) :=
  ⟨h.left, h.right, h.equal⟩

/-- The new field is found alike in both, and every other name as before. -/
theorem field (hr : Same Record.Built r q) (hs : Same Schema.Built s t)
    (name : String) : Same Record.Built (r.field name s) (q.field name t) := by
  refine of_get?_record (.field name hr.left hs.left) (.field name hr.right hs.right) ?_
  intro other
  by_cases h : other = name
  · subst h
    rw [Record.get?_field_self, Record.get?_field_self, Option.map_some,
      Option.map_some, hs.canonical_schema]
  · rw [Record.get?_field_ne r h, Record.get?_field_ne q h, hr.get?_record]

theorem variant (hu : Same Union.Built u w) (hm : Same Member.Built m n) :
    Same Union.Built (u.variant m) (w.variant n) := by
  obtain ⟨hd, hget⟩ := hu.get?_union
  have hvalue : m.value = n.value := (Member.beq_iff.mp hm.equal).2.1
  refine of_get?_union (.variant hu.left hm.left) (.variant hu.right hm.right) hd ?_
  intro other
  by_cases h : other = m.value
  · subst h
    rw [Union.get?_variant_self, hvalue, Union.get?_variant_self, Option.map_some,
      Option.map_some, hm.canonical_member]
  · have hn : other ≠ n.value := hvalue ▸ h
    rw [Union.get?_variant_ne u m h, Union.get?_variant_ne w n hn, hget]

/-- Of a tag only the text goes into the member. -/
theorem make (h : Same Layer.Built k l) (discriminator : String) {tag other : Tag}
    (htag : tag.text = other.text) :
    Same Member.Built (.make discriminator tag k) (.make discriminator other l) :=
  ⟨.make discriminator tag h.left, .make discriminator other h.right,
    Member.beq_iff.mpr ⟨rfl, htag, h.equal⟩⟩

theorem made (hu : Same Union.Built u w) (h : Same Layer.Built k l)
    {tag other : Tag} (htag : tag.text = other.text) :
    Same Union.Built (u.member tag k) (w.member other l) := by
  have hd := hu.get?_union.1
  rw [Union.member, Union.member, ← hd]
  exact hu.variant (h.make u.discriminator htag)

end Same

/-! ## The order of calls -/

theorem Record.built_withFields {fields : List (String × Schema)} {r : Record}
    (hr : r.Built) (h : ∀ f ∈ fields, f.2.Built) : (r.withFields fields).Built := by
  induction fields generalizing r with
  | nil => exact hr
  | cons f rest ih =>
      have hf : (r.field f.1 f.2).Built := .field f.1 hr (h f List.mem_cons_self)
      exact ih hf fun g hg => h g (List.mem_cons_of_mem _ hg)

theorem Union.built_add {u : Union} (hu : u.Built) {a : Addition}
    (ha : (a.made u.discriminator).Built) : (u.add a).Built := by
  rw [add_eq_variant]
  exact .variant hu ha

theorem Union.built_withAdditions {additions : List Union.Addition} {u : Union}
    (hu : u.Built) (h : ∀ a ∈ additions, (a.made u.discriminator).Built) :
    (u.withAdditions additions).Built := by
  induction additions generalizing u with
  | nil => exact hu
  | cons a rest ih =>
      refine ih (Union.built_add hu (h a List.mem_cons_self)) fun b hb => ?_
      rw [discriminator_add]
      exact h b (List.mem_cons_of_mem _ hb)

/-- Fields of distinct names may be declared in any order. -/
theorem Same.withFields_perm {r : Record} (hr : r.Built)
    {fields others : List (String × Schema)} (hp : fields.Perm others)
    (hnames : (fields.map Prod.fst).Nodup) (h : ∀ f ∈ fields, f.2.Built) :
    Same Record.Built (r.withFields fields) (r.withFields others) := by
  have hothers : ∀ f ∈ others, f.2.Built := fun f hf => h f (hp.mem_iff.mpr hf)
  refine of_get?_record (Record.built_withFields hr h)
    (Record.built_withFields hr hothers) ?_
  intro name
  rw [Record.get?, Record.get?, Record.fields_withFields, Record.fields_withFields,
    Entries.lookup_putAll_perm hp hnames]

/-- So may members of distinct values be added. -/
theorem Same.withAdditions_perm {u : Union} (hu : u.Built)
    {additions others : List Union.Addition} (hp : additions.Perm others)
    (hkeys : (additions.map Union.Addition.key).Nodup)
    (h : ∀ a ∈ additions, (a.made u.discriminator).Built) :
    Same Union.Built (u.withAdditions additions) (u.withAdditions others) := by
  have hothers : ∀ a ∈ others, (a.made u.discriminator).Built := fun a ha =>
    h a (hp.mem_iff.mpr ha)
  refine of_get?_union (Union.built_withAdditions hu h)
    (Union.built_withAdditions hu hothers) (by simp) ?_
  intro value
  have hpairs := hp.map fun a => (a.key, a.made u.discriminator)
  have hdistinct : (Entries.keys
      (additions.map fun a => (a.key, a.made u.discriminator))).Nodup := by
    rwa [Entries.keys, List.map_map]
  rw [Union.get?, Union.get?, Union.members_withAdditions, Union.members_withAdditions,
    Entries.lookup_putAll_perm hpairs hdistinct]

/-- Whatever is built from equal parts is equal, and so are the conversions of equal
parts. Two fields of different names, and two members of different values, may be
declared in either order, and any number of them in any. -/
theorem Schema.equality_is_congruence {s t : Schema} {k l : Layer} {r q : Record}
    {u w : Union} {m n : Member} (hs : Same Schema.Built s t)
    (hk : Same Layer.Built k l) (hr : Same Record.Built r q)
    (hu : Same Union.Built u w) (hm : Same Member.Built m n) :
    Same Schema.Built (.array s) (.array t) ∧
      (∀ name, Same Record.Built (r.field name s) (q.field name t)) ∧
      (∀ tag other : Tag, tag.text = other.text →
        Same Union.Built (u.member tag k) (w.member other l)) ∧
      Same Union.Built (u.variant m) (w.variant n) ∧
      (∀ discriminator, ∀ tag other : Tag, tag.text = other.text →
        Same Member.Built (.make discriminator tag k) (.make discriminator other l)) ∧
      (Same Layer.Built (.record r) (.record q) ∧
        Same Layer.Built (.union u) (.union w) ∧
        Same Layer.Built (.member m) (.member n) ∧
          Same Schema.Built (.object k) (.object l)) ∧
      (∀ a b, ∀ x y : Schema, a ≠ b → x.Built → y.Built →
        Same Record.Built ((r.field a x).field b y) ((r.field b y).field a x)) ∧
      (∀ a b : Union.Addition, a.key ≠ b.key → (a.made u.discriminator).Built →
        (b.made u.discriminator).Built →
          Same Union.Built ((u.add a).add b) ((u.add b).add a)) ∧
      (∀ fields others : List (String × Schema), fields.Perm others →
        (fields.map Prod.fst).Nodup → (∀ f ∈ fields, f.2.Built) →
          Same Record.Built (r.withFields fields) (r.withFields others)) ∧
      ∀ additions others : List Union.Addition, additions.Perm others →
        (additions.map Union.Addition.key).Nodup →
          (∀ a ∈ additions, (a.made u.discriminator).Built) →
            Same Union.Built (u.withAdditions additions) (u.withAdditions others) := by
  refine ⟨hs.array, hr.field hs, fun _ _ => hu.made hk, hu.variant hm,
    fun d _ _ => hk.make d, ⟨hr.record, hu.union, hm.member, hk.object⟩,
    ?fields, ?members, fun _ _ => Same.withFields_perm hr.left,
    fun _ _ => Same.withAdditions_perm hu.left⟩
  case fields =>
    intro a b x y hne hx hy
    have hp : [(a, x), (b, y)].Perm [(b, y), (a, x)] := .swap _ _ _
    exact Same.withFields_perm hr.left hp (by simpa) (by simpa using ⟨hx, hy⟩)
  case members =>
    intro a b hne ha hb
    have hp : [a, b].Perm [b, a] := .swap _ _ _
    exact Same.withAdditions_perm hu.left hp (by simpa) (by simpa using ⟨ha, hb⟩)

/-- Equal records stay equal when the gaps, which stand first in the one and last in
the other, are declared anew by equal schemas; so do equal unions when the integer 1
and the string `1` are added to them. The two fields themselves could have been
declared in either order. -/
theorem Schema.drawing_built_from_equal_parts :
    let lines := (Union.on "style").member (.string "dashed") (.record .dashes)
    let reversed :=
      (Union.on "style").member (.string "dashed") (.record .dashesReversed)
    Same Record.Built (Record.dashes.field "gaps" .drawing)
        (Record.dashesReversed.field "gaps" .drawingReversed) ∧
      Same Union.Built (lines.member (.integer 1) (.union lines))
        (reversed.member (.string "1") (.union reversed)) ∧
      Same Record.Built
        (Record.ofFields
          [("gaps", .array (.primitive .number)), ("title", .primitive .undefined)])
        (Record.ofFields
          [("title", .primitive .undefined), ("gaps", .array (.primitive .number))]) := by
  intro lines reversed
  have hs : Same Schema.Built .drawing .drawingReversed := by decide
  have hr : Same Record.Built .dashes .dashesReversed := by decide
  have hu : Same Union.Built lines reversed := by decide
  have hm : Same Member.Built (.make "kind" (.string "line") (.union lines))
      (.make "kind" (.string "line") (.union reversed)) := by decide
  have he : Same Record.Built .empty .empty := by decide
  obtain ⟨_, hfield, hmember, _⟩ := equality_is_congruence hs hu.union hr hu hm
  obtain ⟨_, _, _, _, _, _, _, _, hperm, _⟩ :=
    equality_is_congruence hs hu.union he hu hm
  exact ⟨hfield "gaps", hmember _ _ (by decide),
    hperm _ _ (.swap _ _ _) (by decide) (by decide)⟩

end JsonShape
