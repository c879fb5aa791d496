import JsonShape.Proofs.Equality

/-!
# Evolution — a wider schema accepts what a narrower one accepts

A schema evolves safely when the new one is wider: documents that were accepted
stay accepted. One schema is narrower than another when it asks for at least as
much: the same primitive, a narrower element, at least the same fields with
narrower schemas, at most the same members. A member is narrower than whatever
its body is narrower than, and than a union on its discriminator that has, under
its value, a member it is narrower than. These seven rules are followed with the
check of the narrower schema in hand.

Being narrower is a preorder in which schemas that differ only in the order of
declarations stand on one step: equal schemas are narrower than each other, and
steps compose. The single changes that evolution is made of are among them.
-/

namespace JsonShape

/-! ## Narrower schemas -/

mutual

inductive Schema.Narrower : Schema → Schema → Prop
  | primitive {kind : Primitive} : Schema.Narrower (.primitive kind) (.primitive kind)
  | array {s t : Schema} : Schema.Narrower s t → Schema.Narrower (.array s) (.array t)
  | object {l k : Layer} : Layer.Narrower l k → Schema.Narrower (.object l) (.object k)

inductive Layer.Narrower : Layer → Layer → Prop
  /-- every field of the wider record is declared, with a narrower schema -/
  | record {r w : Record} :
      (∀ name t, (name, t) ∈ w.fields → (r.get? name).isSome) →
      (∀ name s t, r.get? name = some s → (name, t) ∈ w.fields → Schema.Narrower s t) →
      Layer.Narrower (.record r) (.record w)
  /-- every member has a wider one under its key -/
  | union {u w : Union} : u.discriminator = w.discriminator →
      (∀ key m, (key, m) ∈ u.members → (w.get? key).isSome) →
      (∀ key m n, (key, m) ∈ u.members → w.get? key = some n →
        Layer.Narrower (.member m) (.member n)) →
      Layer.Narrower (.union u) (.union w)
  | member {m n : Member} : m.discriminator = n.discriminator → m.value = n.value →
      Layer.Narrower m.body n.body → Layer.Narrower (.member m) (.member n)
  /-- a member asks for all that its body asks for -/
  | ofBody {m : Member} {l : Layer} : Layer.Narrower m.body l →
      Layer.Narrower (.member m) l
  /-- a member is one of the choices of a union -/
  | choice {m n : Member} {w : Union} : m.discriminator = w.discriminator →
      w.get? m.value = some n → Layer.Narrower (.member m) (.member n) →
      Layer.Narrower (.member m) (.union w)

end

/-! ## Acceptance -/

mutual

theorem Schema.Narrower.check_ok {s t : Schema} (h : s.Narrower t)
    {value? : Option Value} {path : Path} (hs : s.check value? path = .ok ()) :
    t.check value? path = .ok () := by
  match h with
  | .primitive => exact hs
  | .array h =>
      obtain ⟨items, rfl, hitems⟩ := Schema.check_array_eq_ok_iff.mp hs
      refine Schema.check_array_eq_ok_iff.mpr ⟨items, rfl, fun i item hi => ?_⟩
      exact h.check_ok (hitems i item hi)
  | .object h =>
      obtain ⟨entries, rfl, hlayer⟩ := Schema.check_object_eq_ok_iff.mp hs
      exact Schema.check_object_eq_ok_iff.mpr ⟨entries, rfl, h.check_ok hlayer⟩

theorem Layer.Narrower.check_ok {l k : Layer} (h : l.Narrower k)
    {entries : List (String × Value)} {path : Path}
    (hl : l.check entries path = .ok ()) : k.check entries path = .ok () := by
  match h with
  | .record hdeclared hnarrower =>
      rw [Layer.check_record, Record.checkFields_eq_ok_iff] at hl ⊢
      intro name t ht
      obtain ⟨s, hs⟩ := Option.isSome_iff_exists.mp (hdeclared name t ht)
      exact (hnarrower name s t hs ht).check_ok (hl name s (Entries.mem_of_lookup hs))
  | .union hd hknown hnarrower =>
      obtain ⟨tag, m, htag, hget, hm⟩ := Layer.check_union_eq_ok_iff.mp hl
      have hmem := Entries.mem_of_lookup hget
      obtain ⟨n, hn⟩ := Option.isSome_iff_exists.mp (hknown tag m hmem)
      exact Layer.check_union_eq_ok_iff.mpr
        ⟨tag, n, hd ▸ htag, hn, (hnarrower tag m n hmem hn).check_ok hm⟩
  | .member hd hv h =>
      obtain ⟨htag, hbody⟩ := Layer.check_member_eq_ok_iff.mp hl
      exact Layer.check_member_eq_ok_iff.mpr ⟨hd ▸ hv ▸ htag, h.check_ok hbody⟩
  | .ofBody h => exact h.check_ok (Layer.check_member_eq_ok_iff.mp hl).2
  | .choice hd hget h =>
      obtain ⟨htag, _⟩ := Layer.check_member_eq_ok_iff.mp hl
      exact Layer.check_union_eq_ok_iff.mpr ⟨_, _, hd ▸ htag, hget, h.check_ok hl⟩

end

/-! ## Declaration order -/

theorem Layer.beq_symm {l k : Layer} (hl : l.WellFormed) (hk : k.WellFormed)
    (h : (l == k) = true) : (k == l) = true := by
  rw [Layer.beq_iff_canonical_eq hk hl]
  exact ((Layer.beq_iff_canonical_eq hl hk).mp h).symm

theorem narrower_of_beq :
    LayeredCases
      (fun s => ∀ t : Schema, s.WellFormed → t.WellFormed → (s == t) = true →
        s.Narrower t)
      (fun l => ∀ k : Layer, l.WellFormed → k.WellFormed → (l == k) = true →
        l.Narrower k) where
  primitive kind t _ _ h := by
    cases t with
    | primitive other =>
        rw [Schema.primitive_beq, beq_iff_eq] at h
        exact h ▸ .primitive
    | array _ | object _ => exact nomatch h
  array element ih t hs ht h := by
    cases t with
    | array other => exact .array (ih other hs ht h)
    | primitive _ | object _ => exact nomatch h
  object layer ih t hs ht h := by
    cases t with
    | object other => exact .object (ih other hs ht h)
    | primitive _ | array _ => exact nomatch h
  record r ih k hr hk h := by
    cases k with
    | record q =>
        have hback := (Record.beq_iff.mp (Layer.beq_symm hr hk h)).2
        have hforth := (Record.beq_iff.mp h).2
        refine .record (fun name t ht => ?_) (fun name s t hs ht => ?_)
        · obtain ⟨s, hs, _⟩ := hback name t ht
          rw [hs]
          rfl
        · have hmem := Entries.mem_of_lookup hs
          obtain ⟨partner, hpartner, hbeq⟩ := hforth name s hmem
          -- the names of the other record are distinct, so this is the partner
          cases Option.some.inj (hpartner.symm.trans (Record.get?_of_mem hk ht))
          exact ih name s hmem t (Record.wellFormed_of_mem hr hmem)
            (Record.wellFormed_of_mem hk ht)
            hbeq
    | union w => cases r; cases w; exact nomatch h
    | member n => cases r; exact nomatch h
  union u ih k hu hk h := by
    cases k with
    | union w =>
        obtain ⟨hd, _, hforth⟩ := Union.beq_iff.mp h
        refine .union hd (fun key m hm => ?_) (fun key m n hm hn => ?_)
        · obtain ⟨n, hn, _⟩ := hforth key m hm
          rw [hn]
          rfl
        · obtain ⟨partner, hpartner, hbeq⟩ := hforth key m hm
          cases Option.some.inj (hpartner.symm.trans hn)
          exact (ih key m hm).2 (.member n) (Union.wellFormed_of_mem hu hm)
            (Union.wellFormed_of_mem hk (Entries.mem_of_lookup hn)) hbeq
    | record q => cases u; cases q; exact nomatch h
    | member n => cases u; exact nomatch h
  member m ih k hm hk h := by
    cases k with
    | member n =>
        obtain ⟨hd, hv, hbody⟩ := Member.beq_iff.mp h
        rw [Layer.wellFormed_member] at hm hk
        exact .member hd hv (ih n.body hm hk hbody)
    | record q => cases q; exact nomatch h
    | union w => cases w; exact nomatch h

/-- Equal schemas are narrower than each other. -/
theorem Schema.narrower_of_equal {s t : Schema} (hs : s.Built) (ht : t.Built)
    (h : (s == t) = true) : s.Narrower t :=
  Schema.of_cases narrower_of_beq s t hs.wellFormed ht.wellFormed h

theorem Schema.Narrower.refl {s : Schema} (hs : s.WellFormed) : s.Narrower s :=
  Schema.of_cases narrower_of_beq s s hs hs
    ((Schema.beq_iff_canonical_eq hs hs).mpr rfl)

theorem Layer.Narrower.refl {l : Layer} (hl : l.WellFormed) : l.Narrower l :=
  Layer.of_cases narrower_of_beq l l hl hl ((Layer.beq_iff_canonical_eq hl hl).mpr rfl)

/-! ## One step after another -/

/-- Two steps from member to member are one, if two steps from the body are. -/
theorem Layer.Narrower.trans_member {l m n : Member}
    (ih : ∀ k j, l.body.Narrower k → k.Narrower j → l.body.Narrower j)
    (h : (Layer.member l).Narrower (.member m))
    (h' : (Layer.member m).Narrower (.member n)) :
    (Layer.member l).Narrower (.member n) := by
  cases h with
  | ofBody hb => exact .ofBody (ih _ _ hb h')
  | member hd hv hb =>
      cases h' with
      | member hd' hv' hb' =>
          exact .member (hd.trans hd') (hv.trans hv') (ih _ _ hb hb')
      | ofBody hb' => exact .ofBody (ih _ _ hb hb')

theorem narrower_trans :
    LayeredCases (fun s => ∀ t u : Schema, s.Narrower t → t.Narrower u → s.Narrower u)
      (fun l => ∀ k j : Layer, l.Narrower k → k.Narrower j → l.Narrower j) where
  primitive kind t u h h' := by
    cases h with
    | primitive => exact h'
  array element ih t u h h' := by
    cases h with
    | array h =>
        cases h' with
        | array h' => exact .array (ih _ _ h h')
  object layer ih t u h h' := by
    cases h with
    | object h =>
        cases h' with
        | object h' => exact .object (ih _ _ h h')
  record r ih k j h h' := by
    cases h with
    | @record _ q hdeclared hnarrower =>
        cases h' with
        | record hdeclared' hnarrower' =>
            refine .record (fun name u hu => ?_) (fun name s u hs hu => ?_)
            · obtain ⟨t, ht⟩ := Option.isSome_iff_exists.mp (hdeclared' name u hu)
              exact hdeclared name t (Entries.mem_of_lookup ht)
            · obtain ⟨t, ht⟩ := Option.isSome_iff_exists.mp (hdeclared' name u hu)
              exact ih name s (Entries.mem_of_lookup hs) t u
                (hnarrower name s t hs (Entries.mem_of_lookup ht))
                (hnarrower' name t u ht hu)
  union u ih k j h h' := by
    cases h with
    | @union _ w hd hknown hnarrower =>
        cases h' with
        | union hd' hknown' hnarrower' =>
            refine .union (hd.trans hd') (fun key m hm => ?_) (fun key m o hm ho => ?_)
            · obtain ⟨n, hn⟩ := Option.isSome_iff_exists.mp (hknown key m hm)
              exact hknown' key n (Entries.mem_of_lookup hn)
            · obtain ⟨n, hn⟩ := Option.isSome_iff_exists.mp (hknown key m hm)
              exact (ih key m hm).2 _ _ (hnarrower key m n hm hn)
                (hnarrower' key n o (Entries.mem_of_lookup hn) ho)
  member m ih k j h h' := by
    cases h with
    | ofBody hb => exact .ofBody (ih _ _ hb h')
    | member hd hv hb =>
        cases h' with
        | member hd' hv' hb' =>
            exact .member (hd.trans hd') (hv.trans hv') (ih _ _ hb hb')
        | ofBody hb' => exact .ofBody (ih _ _ hb hb')
        | choice hd' hget hn =>
            exact .choice (hd.trans hd') (hv ▸ hget)
              (.trans_member ih (.member hd hv hb) hn)
    | choice hd hget hm =>
        cases h' with
        | union hd' hknown hnarrower =>
            have hmem := Entries.mem_of_lookup hget
            obtain ⟨o, ho⟩ := Option.isSome_iff_exists.mp (hknown _ _ hmem)
            exact .choice (hd.trans hd') ho
              (.trans_member ih hm (hnarrower _ _ o hmem ho))

theorem Schema.Narrower.trans {s t u : Schema} (h : s.Narrower t) (h' : t.Narrower u) :
    s.Narrower u :=
  Schema.of_cases narrower_trans s t u h h'

/-! ## Single changes -/

/-- One more field narrows a record. -/
theorem Record.field_narrower {r : Record} (hr : (Layer.record r).WellFormed)
    {name : String} (hnew : name ∉ r.names) (s : Schema) :
    (Layer.record (r.field name s)).Narrower (.record r) := by
  have hkept : ∀ n t, (n, t) ∈ r.fields → (r.field name s).get? n = some t := by
    intro n t ht
    exact Entries.lookup_put_of_mem (Layer.wellFormed_record.mp hr).1 ht hnew
  refine .record (fun n t ht => ?_) (fun n u t hu ht => ?_)
  · rw [hkept n t ht]
    rfl
  · cases Option.some.inj (hu.symm.trans (hkept n t ht))
    exact .refl (Record.wellFormed_of_mem hr ht)

/-- A union is narrower than with one more member. -/
theorem Union.narrower_variant {u : Union} (hu : (Layer.union u).WellFormed)
    {m : Member} (hnew : m.value ∉ u.memberKeys) :
    (Layer.union u).Narrower (.union (u.variant m)) := by
  have hkept : ∀ key n, (key, n) ∈ u.members → (u.variant m).get? key = some n := by
    intro key n hn
    exact Entries.lookup_put_of_mem (Layer.wellFormed_union.mp hu).1 hn hnew
  refine .union rfl (fun key n hn => ?_) (fun key n o hn ho => ?_)
  · rw [hkept key n hn]
    rfl
  · cases Option.some.inj (ho.symm.trans (hkept key n hn))
    exact .refl (Union.wellFormed_of_mem hu hn)

/-- A member of a union that shares its discriminator is narrower than the
union. -/
theorem Union.member_narrower {u : Union} (hu : (Layer.union u).WellFormed)
    {key : String} {m : Member} (hm : (key, m) ∈ u.members)
    (hd : m.discriminator = u.discriminator) :
    (Layer.member m).Narrower (.union u) := by
  obtain rfl := Union.key_eq_value hu hm
  exact .choice hd (Union.get?_of_mem hu hm) (.refl (Union.wellFormed_of_mem hu hm))

/-! ## Safe evolution -/

/-- A wider schema accepts whatever a narrower one accepts, wherever it is
found. In what order the two declare their fields and members plays no part:
written in any other order they are narrower and wider all the same. -/
theorem Schema.wider_accepts {s t : Schema} (h : s.Narrower t) :
    (∀ value? path, s.check value? path = .ok () → t.check value? path = .ok ()) ∧
      ∀ s' t' : Schema, s.Built → s'.Built → t.Built → t'.Built → (s' == s) = true →
        (t == t') = true → s'.Narrower t' := by
  refine ⟨fun value? path hs => h.check_ok hs, fun s' t' hs hs' ht ht' hss' htt' => ?_⟩
  have hbefore : s'.Narrower s := narrower_of_equal hs' hs hss'
  have hafter : t.Narrower t' := narrower_of_equal ht ht' htt'
  exact hbefore.trans (h.trans hafter)

/-- Circles with a colour. -/
def Schema.colouredCircle : Schema :=
  .object (.member (.make "kind" (.string "circle")
    (.record (Record.circle.field "color" (.primitive .string)))))

/-- Circles with a colour are circles, which are among the drawings, whichever
way round these are declared. -/
theorem Schema.coloured_circle_is_drawn :
    Schema.colouredCircle.Narrower .drawing ∧
      Schema.colouredCircle.Narrower .drawingReversed ∧
      Schema.drawing.check
        (some (.object [("color", .string "red"), ("radius", .number 2 0),
          ("kind", .string "circle")])) (Path.root.field "shape") = .ok () := by
  let circles := (Union.on "kind").member (.string "circle") (.record .circle)
  let circle := Member.make "kind" (.string "circle") (.record .circle)
  have hcircle : Schema.colouredCircle.Narrower (.object (.member circle)) :=
    .object (.member rfl rfl (Record.field_narrower (by decide) (by decide) _))
  have hcircles :
      (Schema.object (.member circle)).Narrower (.object (.union circles)) :=
    .object (Union.member_narrower (by decide) (.head _) rfl)
  have hlines : (Schema.object (.union circles)).Narrower .drawing :=
    .object (Union.narrower_variant (by decide) (by decide))
  have hnarrower := hcircle.trans (hcircles.trans hlines)
  obtain ⟨haccepts, horder⟩ := wider_accepts hnarrower
  refine ⟨hnarrower, ?_, haccepts _ _ (by decide)⟩
  exact horder .colouredCircle .drawingReversed (by decide) (by decide) (by decide)
    (by decide)
    (by decide) (by decide)

end JsonShape
