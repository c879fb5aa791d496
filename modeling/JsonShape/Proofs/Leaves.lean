import JsonShape.Proofs.Building
import JsonShape.Proofs.Reading
import JsonShape.Schema.Layers
import Mathlib.Data.List.Forall2

/-!
# Leaves — what leaves hold stays out of the outcome

Of a number, a boolean or a string validation looks at the type, and at nothing
else unless an applied layer reads the string as its tag. So two documents of
one outline that agree in these tags have the same outcome, failure and all:
no failure tells anything else that a leaf holds.

The two documents are followed together. `Value.SameOutline` says how they
differ and knows of no schema; `Schema.TagsKept` goes down the schema and says
where they must not.
-/

namespace JsonShape

/-! ## Documents of one outline -/

theorem Value.SameOutline.dynType_eq {v w : Value} (h : v.SameOutline w) :
    v.dynType = w.dynType := by
  cases h <;> rfl

/-- Arrays whose elements are of one outline, one by one. -/
theorem Value.SameOutline.items {a b : List Value}
    (h : List.Forall₂ Value.SameOutline a b) :
    (Value.array a).SameOutline (.array b) := by
  refine .array h.length_eq fun i x y hx hy => ?_
  induction h generalizing i with
  | nil => cases hx
  | cons hhead _ ih =>
      cases i with
      | zero =>
          cases hx
          cases hy
          exact hhead
      | succ i => exact ih i hx hy

/-- Objects that have the same keys in one order, with values of one outline. -/
theorem Value.SameOutline.entries {a b : List (String × Value)}
    (h : List.Forall₂ (fun e f => e.1 = f.1 ∧ e.2.SameOutline f.2) a b) :
    (Value.object a).SameOutline (.object b) := by
  have hkeys : Entries.keys a = Entries.keys b := by
    induction h with
    | nil => rfl
    | cons hhead _ ih => rw [Entries.keys_cons, Entries.keys_cons, hhead.1, ih]
  refine .object hkeys fun key x y hx hy => ?_
  clear hkeys
  induction h with
  | nil => cases hx
  | @cons e f a b hhead _ ih =>
      obtain ⟨k, u⟩ := e
      obtain ⟨l, v⟩ := f
      obtain ⟨rfl, hvalue⟩ := hhead
      by_cases hk : k = key
      · subst hk
        rw [List.lookup_cons_self] at hx hy
        cases hx
        cases hy
        exact hvalue
      · rw [Entries.lookup_cons_ne hk] at hx hy
        exact ih hx hy

/-! ## Tags -/

/-- Values of one outline read alike as a tag, if as strings they are the
same. -/
theorem Value.SameOutline.sameTag {a b : List (String × Value)} {d : String}
    {x y : Value} (h : x.SameOutline y) (hx : a.lookup d = some x)
    (hy : b.lookup d = some y) (htag : tagAt a d = tagAt b d) :
    SameTag (some x) (some y) := by
  rw [tagAt, tagAt, hx, hy] at htag
  exact ⟨h.dynType_eq, htag⟩

/-- A schema in which no layer reads a tag keeps all of them. -/
theorem tagsKept_of_untagged :
    LayeredCases
      (fun s => (∀ l ∈ s.layers, l.discriminator? = none) → ∀ v w, s.TagsKept v w)
      (fun l => (∀ k ∈ l.layers, k.discriminator? = none) → ∀ v w,
        (Schema.object l).TagsKept v w) where
  primitive kind _ v w := .primitive
  array element ih h v w := .array fun _ _ _ x y _ _ _ _ => ih h x y
  object layer ih h := ih h
  record r ih h v w := by
    have hself := h _ (Layer.self_mem_layers _)
    refine .object ?tags ?fields
    case tags =>
      intro a b l d _ _ hl hd
      rw [Layer.applied_record, List.mem_singleton] at hl
      rw [hl] at hd
      cases hd
    case fields =>
      intro a b q name s x y _ _ hq hs _ _
      rw [Layer.applied_record, List.mem_singleton] at hq
      cases hq
      refine ih name s hs (fun l hl => h l ?_) x y
      rw [Layer.layers_record]
      exact List.mem_cons_of_mem _ (List.mem_flatMap.mpr ⟨(name, s), hs, hl⟩)
  union u _ h := absurd (h _ (Layer.self_mem_layers _)) nofun
  member m _ h := absurd (h _ (Layer.self_mem_layers _)) nofun

theorem Schema.tagsKept {s : Schema} (h : ∀ l ∈ s.layers, l.discriminator? = none)
    (v w : Value) : s.TagsKept v w :=
  Schema.of_cases tagsKept_of_untagged s h v w

/-- Tags are kept in an object when the applied layers find the same tags and
no field of the applied record reads any. -/
theorem Schema.TagsKept.of_record {layer : Layer} {a b : List (String × Value)}
    {r : Record} (hr : .record r ∈ layer.applied a)
    (htags : ∀ d ∈ (layer.applied a).filterMap Layer.discriminator?,
      tagAt a d = tagAt b d)
    (hfields : ∀ f ∈ r.fields, ∀ l ∈ f.2.layers, l.discriminator? = none) :
    (Schema.object layer).TagsKept (.object a) (.object b) := by
  refine .object ?tags ?fields
  case tags =>
    intro a' b' l d ha hb hl hd
    cases ha
    cases hb
    exact htags d (List.mem_filterMap.mpr ⟨l, hl, hd⟩)
  case fields =>
    intro a' b' q name s x y ha _ hq hs _ _
    cases ha
    obtain rfl := Layer.of_cases record_eq_of_applied layer a r q hr hq
    exact Schema.tagsKept (hfields (name, s) hs) x y

/-! ## Outcomes -/

/-- Documents that differ only in what leaves hold, apart from the strings
that an applied layer reads as its tag, have the same outcome wherever they are
found: both are accepted, or both are rejected with one and the same failure. -/
theorem Schema.check_eq_of_sameOutline {s : Schema} {v w : Value}
    (h : v.SameOutline w) (hkept : s.TagsKept v w) (path : Path) :
    s.check (some v) path = s.check (some w) path := by
  induction s using Schema.of_applied generalizing v w path with
  | primitive kind => exact Schema.check_primitive_congr h.dynType_eq kind path
  | array element ih =>
      cases h with
      | array hlength hitems =>
          cases hkept with
          | array hkept =>
              refine Schema.check_array_congr hlength (fun i x y hx hy => ?_) path
              exact ih (hitems i x y hx hy) (hkept _ _ i x y rfl rfl hx hy)
      | _ => rfl
  | object layer ih =>
      cases h with
      | @object a b hkeys hentries =>
          cases hkept with
          | object htags hfields =>
              refine Schema.check_object_congr
                (.of_keys (fun name => hkeys ▸ Iff.rfl) ?tags ?fields) path
              case tags =>
                intro k hk d hd x y hx hy
                exact (hentries d x y hx hy).sameTag hx hy (htags a b k d rfl rfl hk hd)
              case fields =>
                intro r hr name s hs x y hx hy
                exact ih a r name s hr hs (hentries name x y hx hy)
                  (hfields a b r name s x y rfl rfl hr hs hx hy)
      | _ => rfl

/-- A circle that has a style, and a dashed line with a gap that is no number.
Nobody reads a circle's style, and a line is told by its own. -/
def Value.sketches (style : String) (radius gap : Int) (broken : Bool) : Value :=
  .array [
    .object [("kind", .string "circle"), ("style", .string style),
      ("radius", .number radius 0)],
    .object [("kind", .string "line"), ("style", .string "dashed"),
      ("gaps", .array [.number gap 0, .boolean broken])]]

theorem Value.sameOutline_sketches (style other : String) (m n i j : Int) (b c : Bool) :
    (Value.sketches style m i b).SameOutline (.sketches other n j c) := by
  refine .items (.cons (.entries ?circle) (.cons (.entries ?line) .nil))
  case circle =>
    exact .cons ⟨rfl, .string⟩ (.cons ⟨rfl, .string⟩ (.cons ⟨rfl, .number⟩ .nil))
  case line =>
    refine .cons ⟨rfl, .string⟩ (.cons ⟨rfl, .string⟩ (.cons ⟨rfl, .items ?_⟩ .nil))
    exact .cons .number (.cons .boolean .nil)

theorem Schema.tagsKept_sketches :
    (Schema.array .drawing).TagsKept (.sketches "dotted" 2 4 true)
      (.sketches "dashed" 7 1 false) := by
  refine .array fun _ _ position x y hv hw hx hy => ?_
  cases hv
  cases hw
  match position with
  | 0 =>
      cases hx
      cases hy
      -- the circle's tag is the kind alone, so its style may differ
      exact .of_record (r := .circle) (.tail _ (.tail _ (.head _)))
        (by decide) (by decide)
  | 1 =>
      cases hx
      cases hy
      exact .of_record (r := .dashes) (.tail _ (.tail _ (.tail _ (.tail _ (.head _)))))
        (by decide) (by decide)
  | position + 2 => cases hx

/-- The outcome for two sketches does not tell their styles, radii and gaps
apart. -/
theorem Schema.sketches_told_alike :
    (Value.sketches "dotted" 2 4 true).SameOutline (.sketches "dashed" 7 1 false) ∧
      (Schema.array .drawing).TagsKept (.sketches "dotted" 2 4 true)
        (.sketches "dashed" 7 1 false) ∧
      (Schema.array .drawing).check (some (.sketches "dotted" 2 4 true)) .root =
        (Schema.array .drawing).check (some (.sketches "dashed" 7 1 false)) .root ∧
      (Schema.array .drawing).check (some (.sketches "dashed" 7 1 false)) .root =
        .error ((Mismatch.wrongType .number (.primitive .boolean)).failureAt
          (((Path.root.index 1).field "gaps").index 1)) := by
  have hsame := Value.sameOutline_sketches "dotted" "dashed" 2 7 4 1 true false
  exact ⟨hsame, tagsKept_sketches,
    check_eq_of_sameOutline hsame tagsKept_sketches .root, by decide⟩

end JsonShape
