import JsonShape.Proofs.Building
import JsonShape.Proofs.Reading
import Mathlib.Logic.Relation

/-!
# Undeclared — what a schema does not look at plays no part

Documents that differ under names that no schema inspects there, or in the
order of keys, have one outcome. Each single change (`Schema.Unseen`) leaves
the objects around it alike to their layers, so it leaves the whole check as it
was; a document that comes of many changes follows.
-/

namespace JsonShape

/-! ## The order of keys -/

theorem Value.Reordered.sameTag {v w : Value} (h : v.Reordered w) :
    SameTag (some v) (some w) := by
  cases h with
  | refl => exact .refl _
  | array _ _ => exact ⟨rfl, rfl⟩
  | object _ _ => exact ⟨rfl, rfl⟩

/-- The keys of one object may be permuted, as long as they are distinct. -/
theorem Value.Reordered.of_perm {a b : List (String × Value)} (h : a.Perm b)
    (hkeys : (Entries.keys a).Nodup) : Value.Reordered (.object a) (.object b) := by
  refine .object (h.map Prod.fst) fun key x y hx hy => ?_
  rw [Entries.lookup_perm h hkeys, hy] at hx
  cases hx
  exact .refl

theorem Schema.check_eq_of_reordered (s : Schema) :
    ∀ v w, v.Reordered w → ∀ path, s.check (some v) path = s.check (some w) path := by
  induction s using Schema.of_applied with
  | primitive kind =>
      intro v w h path
      exact Schema.check_primitive_congr h.sameTag.1 kind path
  | array element ih =>
      intro v w h path
      cases h with
      | refl => rfl
      | array hlength hitems =>
          exact Schema.check_array_congr hlength
            (fun i x y hx hy => ih x y (hitems i x y hx hy)) path
      | object _ _ => rfl
  | object layer ih =>
      intro v w h path
      cases h with
      | refl => rfl
      | array _ _ => rfl
      | object hkeys hentries =>
          refine Schema.check_object_congr
            (.of_keys (fun name => hkeys.mem_iff) ?tags ?fields) path
          case tags =>
            intro k _ d _ x y hx hy
            exact (hentries d x y hx hy).sameTag
          case fields =>
            intro r hr name s hs x y hx hy
            exact ih _ r name s hr hs x y (hentries name x y hx hy)

/-! ## Names that are not inspected -/

namespace Layer

theorem inspected_record (r : Record) : (Layer.record r).inspected = r.names := by
  cases r
  rfl

theorem inspected_union (u : Union) :
    (Layer.union u).inspected =
      u.discriminator :: u.members.flatMap fun e => (Layer.member e.2).inspected := by
  obtain ⟨d, members⟩ := u
  rw [inspected, Union.inspectedByMembers_eq]
  rfl

theorem inspected_member (m : Member) :
    (Layer.member m).inspected = m.discriminator :: m.body.inspected := by
  cases m
  rfl

theorem discriminator_mem_inspected {l : Layer} {d : String}
    (h : l.discriminator? = some d) : d ∈ l.inspected := by
  rcases l with r | u | m
  · cases h
  · cases h
    rw [inspected_union]
    exact List.mem_cons_self
  · cases h
    rw [inspected_member]
    exact List.mem_cons_self

end Layer

/-- What an applied layer inspects is inspected by the layer it comes from. -/
theorem inspected_of_applied :
    LayeredCases (fun _ => True)
      (fun l => ∀ entries k, k ∈ l.applied entries →
        ∀ name ∈ k.inspected, name ∈ l.inspected) where
  primitive _ := trivial
  array _ _ := trivial
  object _ _ := trivial
  record r _ entries k hk name hname := by
    rw [Layer.applied_record, List.mem_singleton] at hk
    exact hk ▸ hname
  union u ih entries k hk name hname := by
    rcases Layer.mem_applied_union.mp hk with rfl | ⟨tag, m, _, hget, hk⟩
    · exact hname
    · have hm := Entries.mem_of_lookup hget
      rw [Layer.inspected_union]
      refine List.mem_cons_of_mem _ (List.mem_flatMap.mpr ⟨(tag, m), hm, ?_⟩)
      exact (ih tag m hm).2 entries k hk name hname
  member m ih entries k hk name hname := by
    rcases Layer.mem_applied_member.mp hk with rfl | ⟨_, hk⟩
    · exact hname
    · rw [Layer.inspected_member]
      exact List.mem_cons_of_mem _ (ih entries k hk name hname)

/-- Objects that hold the same under the inspected names read alike. -/
theorem Layer.ReadsAlike.of_inspected {l : Layer} {a b : List (String × Value)}
    (h : ∀ name ∈ l.inspected, b.lookup name = a.lookup name) : l.ReadsAlike a b where
  tags k hk d hd := by
    have hname := Layer.of_cases inspected_of_applied l a k hk d
      (Layer.discriminator_mem_inspected hd)
    rw [h d hname]
    exact .refl _
  fields r hr name s hs path := by
    have hdeclared : name ∈ (Layer.record r).inspected := by
      rw [Layer.inspected_record]
      exact List.mem_map.mpr ⟨(name, s), hs, rfl⟩
    rw [h name (Layer.of_cases inspected_of_applied l a _ hr name hdeclared)]

/-! ## Single changes -/

/-- A new value under one name reads alike if it does as a tag and is judged
alike as a field. -/
theorem Layer.ReadsAlike.assign {l : Layer} {entries : List (String × Value)}
    {name : String} {x y : Value} (hx : entries.lookup name = some x)
    (htag : SameTag (some x) (some y))
    (hfields : ∀ r s, .record r ∈ l.applied entries → (name, s) ∈ r.fields →
      ∀ path, s.check (some x) path = s.check (some y) path) :
    l.ReadsAlike entries (Entries.assign entries name (some y)) where
  tags k _ d _ := by
    by_cases hd : d = name
    · rw [hd, Entries.lookup_assign_self, hx]
      exact htag
    · rw [Entries.lookup_assign_ne _ hd]
      exact .refl _
  fields r hr n s hs path := by
    by_cases hn : n = name
    · subst hn
      rw [Entries.lookup_assign_self, hx]
      exact hfields r s hr hs path
    · rw [Entries.lookup_assign_ne _ hn]

theorem Schema.Unseen.check_eq {s : Schema} {v w : Value} (h : s.Unseen v w) :
    ∀ path, s.check (some v) path = s.check (some w) path := by
  induction h with
  | reorder h => exact Schema.check_eq_of_reordered _ _ _ h
  | @entry s entries name new? hname =>
      cases s with
      | primitive kind => exact fun _ => rfl
      | array element => exact fun _ => rfl
      | object layer =>
          refine Schema.check_object_congr (.of_inspected fun other hother => ?_)
          refine Entries.lookup_assign_ne _ ?_ _
          rintro rfl
          exact hname hother
  | @item element items position x y hx _ ih =>
      refine Schema.check_array_congr List.length_set.symm fun i u v hu hv => ?_
      by_cases hi : position = i
      · subst hi
        have hlt : position < items.length := (List.getElem?_eq_some_iff.mp hx).1
        rw [List.getElem?_set_self hlt] at hv
        cases Option.some.inj (hx.symm.trans hu)
        cases hv
        exact ih
      · rw [List.getElem?_set_ne hi, hu] at hv
        cases hv
        exact fun _ => rfl
  | field hx htag _ ih => exact Schema.check_object_congr (.assign hx htag ih)

theorem Schema.Unseen.sameTag {s : Schema} {v w : Value} (h : s.Unseen v w) :
    SameTag (some v) (some w) := by
  cases h with
  | reorder h => exact h.sameTag
  | entry _ => exact ⟨rfl, rfl⟩
  | item _ _ => exact ⟨rfl, rfl⟩
  | field _ _ _ => exact ⟨rfl, rfl⟩

theorem wellFormed_of_applied :
    LayeredCases (fun _ => True)
      (fun l => l.WellFormed → ∀ entries k, k ∈ l.applied entries → k.WellFormed) where
  primitive _ := trivial
  array _ _ := trivial
  object _ _ := trivial
  record r _ hw entries k hk := by
    rw [Layer.applied_record, List.mem_singleton] at hk
    exact hk ▸ hw
  union u ih hw entries k hk := by
    rcases Layer.mem_applied_union.mp hk with rfl | ⟨tag, m, _, hget, hk⟩
    · exact hw
    · rw [Layer.wellFormed_union] at hw
      have hm := Entries.mem_of_lookup hget
      exact (ih tag m hm).2 (Layer.wellFormed_member.mpr (hw.2 tag m hm).2) entries k hk
  member m ih hw entries k hk := by
    rcases Layer.mem_applied_member.mp hk with rfl | ⟨_, hk⟩
    · exact hw
    · exact ih (Layer.wellFormed_member.mp hw) entries k hk

/-- In a layer that was built one schema is applied to a field, so a change
which that schema does not see is not seen from above. -/
theorem Schema.Unseen.declared {layer : Layer} {entries : List (String × Value)}
    {r : Record} {name : String} {s : Schema} {x y : Value} (hw : layer.WellFormed)
    (hr : .record r ∈ layer.applied entries) (hs : (name, s) ∈ r.fields)
    (hx : entries.lookup name = some x) (h : s.Unseen x y) :
    (Schema.object layer).Unseen (.object entries)
      (.object (Entries.assign entries name (some y))) := by
  refine .field hx h.sameTag fun q t hq ht => ?_
  obtain rfl := Layer.of_cases record_eq_of_applied layer entries r q hr hq
  have hkeys := (Layer.wellFormed_record.mp
    (Layer.of_cases wellFormed_of_applied layer hw entries _ hr)).1
  cases Entries.eq_of_mem hkeys hs ht
  exact h

/-- A document that comes of another one by changes which the schema does not
see has the same outcome wherever it is found: both are accepted, or both are
rejected with one and the same failure. -/
theorem Schema.check_eq_of_unseen {s : Schema} {v w : Value}
    (h : Relation.ReflTransGen s.Unseen v w) (path : Path) :
    s.check (some v) path = s.check (some w) path := by
  induction h with
  | refl => rfl
  | tail _ hstep ih => exact ih.trans (hstep.check_eq path)

/-- A list of drawings. -/
def Record.gallery : Record :=
  Record.empty.field "drawings" (.array .drawing)

/-- A line with a gap that is no number. -/
def Value.brokenLine : List (String × Value) :=
  [("kind", .string "line"), ("style", .string "dashed"),
    ("gaps", .array [.boolean true])]

/-- A line has got a colour, the gallery around it a title, and the keys are
the other way round. The failure is reported as before. -/
theorem Record.gallery_changed_unseen :
    let coloured := Entries.assign Value.brokenLine "color" (some (.string "red"))
    let titled := Entries.assign [("drawings", .array [.object coloured])] "title"
      (some (.string "lines"))
    Relation.ReflTransGen (Schema.object (.record .gallery)).Unseen
        (.object [("drawings", .array [.object Value.brokenLine])])
          (.object titled.reverse) ∧
      (Schema.object (.record .gallery)).check (some (.object titled.reverse)) .root =
        .error ((Mismatch.wrongType .number (.primitive .boolean)).failureAt
          ((((Path.root.field "drawings").index 0).field "gaps").index 0)) := by
  intro coloured titled
  have hline : Schema.drawing.Unseen (.object Value.brokenLine) (.object coloured) :=
    .entry (by decide)
  have hlines : (Schema.array .drawing).Unseen (.array [.object Value.brokenLine])
      (.array ([.object Value.brokenLine].set 0 (.object coloured))) := .item rfl hline
  have happlied : Layer.record .gallery ∈ (Layer.record .gallery).applied
      [("drawings", .array [.object Value.brokenLine])] := .head _
  have hgallery : (Schema.object (.record .gallery)).Unseen
      (.object [("drawings", .array [.object Value.brokenLine])])
      (.object [("drawings", .array [.object coloured])]) :=
    hlines.declared (by decide) happlied (.head _) rfl
  have htitle : (Schema.object (.record .gallery)).Unseen
      (.object [("drawings", .array [.object coloured])])
      (.object titled) := .entry (by decide)
  have horder : (Schema.object (.record .gallery)).Unseen (.object titled)
      (.object titled.reverse) :=
    .reorder (.of_perm titled.reverse_perm.symm (by decide))
  have h := ((Relation.ReflTransGen.single hgallery).tail htitle).tail horder
  exact ⟨h, (Schema.check_eq_of_unseen h .root).symm.trans (by decide)⟩

end JsonShape
