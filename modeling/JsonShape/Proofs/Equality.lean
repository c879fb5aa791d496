import JsonShape.Proofs.Acceptance
import JsonShape.Schema.Equality
import Mathlib.Data.List.Nodup
import Mathlib.Data.List.Perm.Subperm

/-!
# Equality — schemas that are equal up to declaration order

Comparing two keyed lists looks up each key of the left in the right. Where
keys are distinct and there are as many on both sides, this says that one list
is a reordering of the other, and sorting makes reorderings the same. So two
schemas are equal exactly when their canonical forms are one schema, and what a
schema admits can be read off its canonical form.

The canonical form of a schema has the fields of every record and the members
of every union sorted by key, at every depth, and is otherwise the schema.
-/

namespace JsonShape

/-! ## The canonical form -/

/-- The entries in the order of their keys. -/
def Entries.sorted {α : Type} (entries : Entries α) : Entries α :=
  entries.mergeSort fun a b => decide (a.1 ≤ b.1)

theorem Entries.sorted_perm {α : Type} (entries : Entries α) :
    (Entries.sorted entries).Perm entries :=
  List.mergeSort_perm ..

theorem Entries.pairwise_sorted {α : Type} (entries : Entries α) :
    (Entries.sorted entries).Pairwise fun a b => a.1 ≤ b.1 :=
  pairwise_mergeSort_key Prod.fst entries

mutual

/-- The schema with everything sorted by key. -/
def Schema.canonical : Schema → Schema
  | .primitive kind => .primitive kind
  | .array element => .array element.canonical
  | .object layer => .object layer.canonical

def Layer.canonical : Layer → Layer
  | .record ⟨fields⟩ => .record ⟨Entries.sorted (Record.canonicalFields fields)⟩
  | .union ⟨d, members⟩ => .union ⟨d, Entries.sorted (Union.canonicalMembers members)⟩
  | .member m => .member m.canonical

def Member.canonical : Member → Member
  | ⟨d, value, body⟩ => ⟨d, value, body.canonical⟩

def Record.canonicalFields : List (String × Schema) → List (String × Schema)
  | [] => []
  | (name, schema) :: rest => (name, schema.canonical) :: Record.canonicalFields rest

def Union.canonicalMembers : List (String × Member) → List (String × Member)
  | [] => []
  | (key, m) :: rest => (key, m.canonical) :: Union.canonicalMembers rest

end

theorem Record.canonicalFields_eq (fields : List (String × Schema)) :
    Record.canonicalFields fields = fields.map fun f => (f.1, f.2.canonical) := by
  induction fields with
  | nil => rfl
  | cons f rest ih => rw [Record.canonicalFields, ih, List.map_cons]

theorem Union.canonicalMembers_eq (members : List (String × Member)) :
    Union.canonicalMembers members = members.map fun e => (e.1, e.2.canonical) := by
  induction members with
  | nil => rfl
  | cons e rest ih => rw [Union.canonicalMembers, ih, List.map_cons]

/-! ## Sorted entries -/

namespace Entries

variable {α β : Type}

theorem lookup_map (f : α → β) (entries : Entries α) (key : String) :
    List.lookup key (entries.map fun e => (e.1, f e.2)) =
      (entries.lookup key).map f := by
  induction entries with
  | nil => rfl
  | cons e rest ih =>
      obtain ⟨k, v⟩ := e
      rw [List.map_cons]
      by_cases hk : k = key
      · subst hk
        rw [List.lookup_cons_self, List.lookup_cons_self, Option.map_some]
      · rw [lookup_cons_ne hk, lookup_cons_ne hk, ih]

theorem keys_map (f : α → β) (entries : Entries α) :
    keys (entries.map fun e => (e.1, f e.2)) = keys entries := by
  simp [keys]

/-- Keyed lists of one length are reorderings of each other when every entry
of the one is found in the other. -/
theorem perm_iff_lookup {a b : Entries α} (ha : a.keys.Nodup) (hb : b.keys.Nodup) :
    a.Perm b ↔ a.length = b.length ∧
      ∀ key value, (key, value) ∈ a → b.lookup key = some value := by
  constructor
  · intro h
    refine ⟨h.length_eq, fun key value hm => ?_⟩
    exact (lookup_eq_some_iff hb).mpr (h.mem_iff.mp hm)
  · rintro ⟨hlength, hfound⟩
    have hsub : a ⊆ b := fun e he => mem_of_lookup (hfound e.1 e.2 he)
    have hnodup : a.Nodup := List.Nodup.of_map Prod.fst ha
    -- no entry of the right is left over, since there are as many on both sides
    exact (List.subperm_of_subset hnodup hsub).perm_of_length_le
      (Nat.le_of_eq hlength.symm)

/-- Reorderings are those that sorting makes the same. -/
theorem sorted_eq_iff_perm {a b : Entries α} (ha : a.keys.Nodup) :
    sorted a = sorted b ↔ a.Perm b := by
  constructor
  · intro h
    exact (sorted_perm a).symm.trans (h ▸ sorted_perm b)
  · intro h
    have hsorted : (sorted a).Perm (sorted b) :=
      (sorted_perm a).trans (h.trans (sorted_perm b).symm)
    refine hsorted.eq_of_pairwise ?_ (pairwise_sorted a) (pairwise_sorted b)
    rintro ⟨k, x⟩ ⟨l, y⟩ hx hy hkl hlk
    -- two entries that are not in order either way have one key, and so one value
    have hx : a.lookup k = some x :=
      (lookup_eq_some_iff ha).mpr ((sorted_perm a).mem_iff.mp hx)
    have hy : a.lookup l = some y :=
      (lookup_eq_some_iff ha).mpr (h.mem_iff.mpr ((sorted_perm b).mem_iff.mp hy))
    obtain rfl : k = l := String.le_antisymm hkl hlk
    cases Option.some.inj (hx.symm.trans hy)
    rfl

/-- With their values read through `f`, two keyed lists are the same once
sorted when each entry of the one has a partner of its key in the other. -/
theorem sorted_map_eq_iff (f : α → β) {a b : Entries α} (ha : a.keys.Nodup)
    (hb : b.keys.Nodup) :
    sorted (a.map fun e => (e.1, f e.2)) = sorted (b.map fun e => (e.1, f e.2)) ↔
      a.length = b.length ∧
        ∀ key x, (key, x) ∈ a → ∃ y, b.lookup key = some y ∧ f x = f y := by
  have ha' : (keys (a.map fun e => (e.1, f e.2))).Nodup := (keys_map f a).symm ▸ ha
  have hb' : (keys (b.map fun e => (e.1, f e.2))).Nodup := (keys_map f b).symm ▸ hb
  rw [sorted_eq_iff_perm ha', perm_iff_lookup ha' hb', List.length_map, List.length_map]
  simp only [lookup_map, Option.map_eq_some_iff]
  refine and_congr_right fun _ => ⟨fun h key x hx => ?_, fun h key value hm => ?_⟩
  · obtain ⟨y, hy, hxy⟩ := h key (f x) (List.mem_map.mpr ⟨(key, x), hx, rfl⟩)
    exact ⟨y, hy, hxy.symm⟩
  · obtain ⟨⟨k, x⟩, hx, he⟩ := List.mem_map.mp hm
    cases he
    obtain ⟨y, hy, hxy⟩ := h k x hx
    exact ⟨y, hy, hxy.symm⟩

end Entries

/-! ## Canonical forms -/

theorem Layer.canonical_record (r : Record) :
    (Layer.record r).canonical =
      .record ⟨Entries.sorted (r.fields.map fun f => (f.1, f.2.canonical))⟩ := by
  obtain ⟨fields⟩ := r
  rw [canonical, Record.canonicalFields_eq]

theorem Layer.canonical_union (u : Union) :
    (Layer.union u).canonical =
      .union ⟨u.discriminator,
        Entries.sorted (u.members.map fun e => (e.1, e.2.canonical))⟩ := by
  obtain ⟨d, members⟩ := u
  rw [canonical, Union.canonicalMembers_eq]

theorem Member.canonical_eq (m : Member) :
    m.canonical = ⟨m.discriminator, m.value, m.body.canonical⟩ := by
  cases m
  rfl

theorem beq_iff_canonical :
    LayeredCases
      (fun s => ∀ t : Schema, s.WellFormed → t.WellFormed →
        ((s == t) = true ↔ s.canonical = t.canonical))
      (fun l => ∀ k : Layer, l.WellFormed → k.WellFormed →
        ((l == k) = true ↔ l.canonical = k.canonical)) where
  primitive kind t _ _ := by
    cases t with
    | primitive other => simp [Schema.canonical]
    | array _ | object _ => exact ⟨nofun, nofun⟩
  array element ih t hs ht := by
    cases t with
    | array other =>
        rw [Schema.array_beq, ih other hs ht, Schema.canonical, Schema.canonical,
          Schema.array.injEq]
    | primitive _ | object _ => exact ⟨nofun, nofun⟩
  object layer ih t hs ht := by
    cases t with
    | object other =>
        rw [Schema.object_beq, ih other hs ht, Schema.canonical, Schema.canonical,
          Schema.object.injEq]
    | primitive _ | array _ => exact ⟨nofun, nofun⟩
  record r ih k hr hk := by
    cases k with
    | record q =>
        rw [Layer.wellFormed_record] at hr hk
        rw [Layer.canonical_record, Layer.canonical_record, Layer.record.injEq,
          Record.mk.injEq, Entries.sorted_map_eq_iff Schema.canonical hr.1 hk.1]
        refine Record.beq_iff.trans (and_congr_right fun _ => ?_)
        -- the partner of a field is the same on both sides: the one of its name
        refine forall₃_congr fun name s hs => exists_congr fun t =>
          and_congr_right fun hget => ?_
        exact ih name s hs t (hr.2 name s hs) (hk.2 name t (Entries.mem_of_lookup hget))
    | union w => cases r; cases w; exact ⟨nofun, nofun⟩
    | member n => cases r; exact ⟨nofun, nofun⟩
  union u ih k hu hk := by
    cases k with
    | union w =>
        rw [Layer.wellFormed_union] at hu hk
        rw [Layer.canonical_union, Layer.canonical_union, Layer.union.injEq,
          Union.mk.injEq, Entries.sorted_map_eq_iff Member.canonical hu.1 hk.1]
        refine Union.beq_iff.trans
          (and_congr_right fun _ => and_congr_right fun _ => ?_)
        refine forall₃_congr fun key m hm => exists_congr fun n =>
          and_congr_right fun hget => ?_
        have hwm : (Layer.member m).WellFormed :=
          Layer.wellFormed_member.mpr (hu.2 key m hm).2
        have hwn : (Layer.member n).WellFormed :=
          Layer.wellFormed_member.mpr (hk.2 key n (Entries.mem_of_lookup hget)).2
        exact ((ih key m hm).2 (.member n) hwm hwn).trans (by simp [Layer.canonical])
    | record q => cases u; cases q; exact ⟨nofun, nofun⟩
    | member n => cases u; exact ⟨nofun, nofun⟩
  member m ih k hm hk := by
    cases k with
    | member n =>
        rw [Layer.wellFormed_member] at hm hk
        rw [Layer.canonical, Layer.canonical, Layer.member.injEq, Member.canonical_eq,
          Member.canonical_eq, Member.mk.injEq, ← ih n.body hm hk]
        exact Member.beq_iff
    | record q => cases q; exact ⟨nofun, nofun⟩
    | union w => cases w; exact ⟨nofun, nofun⟩

theorem Schema.beq_iff_canonical_eq {s t : Schema} (hs : s.WellFormed)
    (ht : t.WellFormed) : (s == t) = true ↔ s.canonical = t.canonical :=
  Schema.of_cases beq_iff_canonical s t hs ht

theorem Layer.beq_iff_canonical_eq {k l : Layer} (hk : k.WellFormed)
    (hl : l.WellFormed) : (k == l) = true ↔ k.canonical = l.canonical :=
  Layer.of_cases beq_iff_canonical k l hk hl

/-- Schemas that were built are equal exactly when their canonical forms are
one and the same, so equality is reflexive, symmetric and transitive. -/
theorem Schema.equal_iff_same_canonical {s t u : Schema} (hs : s.Built) (ht : t.Built)
    (hu : u.Built) :
    ((s == t) = true ↔ s.canonical = t.canonical) ∧
      (s == s) = true ∧
      ((s == t) = true → (t == s) = true) ∧
      ((s == t) = true → (t == u) = true → (s == u) = true) := by
  have hst := beq_iff_canonical_eq hs.wellFormed ht.wellFormed
  have htu := beq_iff_canonical_eq ht.wellFormed hu.wellFormed
  refine ⟨hst, (beq_iff_canonical_eq hs.wellFormed hs.wellFormed).mpr rfl, fun h => ?_,
    fun h k => ?_⟩
  · exact (beq_iff_canonical_eq ht.wellFormed hs.wellFormed).mpr (hst.mp h).symm
  · exact (beq_iff_canonical_eq hs.wellFormed hu.wellFormed).mpr
      ((hst.mp h).trans (htu.mp k))

/-- The gaps of a dashed line, declared after the title. -/
def Record.dashesReversed : Record :=
  (Record.empty.field "title" (.primitive .undefined)).field "gaps"
    (.array (.primitive .number))

/-- The drawings of `Schema.drawing`, declared the other way round at every
depth. -/
def Schema.drawingReversed : Schema :=
  let line := (Union.on "style").member (.string "dashed") (.record .dashesReversed)
  .object (.union (((Union.on "kind").member (.string "line") (.union line)).member
    (.string "circle") (.record .circle)))

theorem Schema.drawing_same_canonical_reversed :
    (Schema.drawing == Schema.drawingReversed) = true ∧
      Schema.drawing.canonical = Schema.drawingReversed.canonical ∧
      (Schema.drawingReversed == Schema.drawing) = true ∧
      (Schema.drawing == Schema.drawing) = true := by
  have hd : Schema.drawing.Built := by decide
  have hr : Schema.drawingReversed.Built := by decide
  have h : (Schema.drawing == Schema.drawingReversed) = true := by decide
  obtain ⟨hcanonical, _, hsymm, htrans⟩ := equal_iff_same_canonical hd hr hd
  exact ⟨h, hcanonical.mp h, hsymm h, htrans h (hsymm h)⟩

/-! ## What equal schemas admit -/

theorem Entries.mem_sorted_map {α β : Type} {f : α → β} {entries : Entries α}
    {key : String} {value : β} :
    (key, value) ∈ Entries.sorted (entries.map fun e => (e.1, f e.2)) ↔
      ∃ x, (key, x) ∈ entries ∧ f x = value := by
  rw [(Entries.sorted_perm _).mem_iff, List.mem_map]
  constructor
  · rintro ⟨⟨k, x⟩, hx, he⟩
    cases he
    exact ⟨x, hx, rfl⟩
  · rintro ⟨x, hx, rfl⟩
    exact ⟨(key, x), hx, rfl⟩

/-- Admitting is said by membership, so the order of declarations plays no
part in it. -/
theorem admits_canonical_iff :
    LayeredCases (fun s => ∀ value?, s.canonical.Admits value? ↔ s.Admits value?)
      (fun l => ∀ entries, l.canonical.Admits entries ↔ l.Admits entries) where
  primitive kind value? := Iff.rfl
  array element ih value? := by
    rw [Schema.canonical, Schema.admits_array_iff, Schema.admits_array_iff]
    simp only [ih]
  object layer ih value? := by
    rw [Schema.canonical, Schema.admits_object_iff, Schema.admits_object_iff]
    simp only [ih]
  record r ih entries := by
    rw [Layer.canonical_record, Layer.admits_record_iff, Layer.admits_record_iff]
    simp only [Entries.mem_sorted_map]
    constructor
    · intro h name s hs
      exact (ih name s hs _).mp (h name _ ⟨s, hs, rfl⟩)
    · rintro h name _ ⟨s, hs, rfl⟩
      exact (ih name s hs _).mpr (h name s hs)
  union u ih entries := by
    rw [Layer.canonical_union, Layer.admits_union_iff, Layer.admits_union_iff]
    simp only [Entries.mem_sorted_map]
    constructor
    · rintro ⟨tag, _, htag, ⟨m, hm, rfl⟩, hmember⟩
      exact ⟨tag, m, htag, hm, ((ih tag m hm).2 entries).mp hmember⟩
    · rintro ⟨tag, m, htag, hm, hmember⟩
      exact ⟨tag, m.canonical, htag, ⟨m, hm, rfl⟩,
        ((ih tag m hm).2 entries).mpr hmember⟩
  member m ih entries := by
    rw [Layer.canonical, Member.canonical_eq, Layer.admits_member_iff,
      Layer.admits_member_iff, ih]

/-- Equal schemas accept the same possibly absent values, wherever these are
found. -/
theorem Schema.equal_accept_alike {s t : Schema} (hs : s.Built) (ht : t.Built)
    (h : (s == t) = true) (value? : Option Value) (p q : Path) :
    s.check value? p = .ok () ↔ t.check value? q = .ok () := by
  have hcanonical := (beq_iff_canonical_eq hs.wellFormed ht.wellFormed).mp h
  have hadmits : s.Admits value? ↔ t.Admits value? := by
    rw [← Schema.of_cases admits_canonical_iff s, hcanonical,
      Schema.of_cases admits_canonical_iff t]
  constructor
  · intro hok
    exact Schema.check_of_admits ht.wellFormed
      (hadmits.mp (Schema.admits_of_check hok)) q
  · intro hok
    exact Schema.check_of_admits hs.wellFormed
      (hadmits.mpr (Schema.admits_of_check hok)) p

/-- A dashed line that lacks its gaps and has a title. -/
def Value.titledLine : Value :=
  .object [("kind", .string "line"), ("style", .string "dashed"), ("title", .null)]

/-- Both orders of declaration accept a dashed line. Of a titled one they
report different failures, yet neither accepts it. -/
theorem Schema.drawing_accepts_like_reversed :
    (Schema.drawing == Schema.drawingReversed) = true ∧
      Schema.drawingReversed.check (some (.dashedLine [.number 4 0]))
        (Path.root.field "shape") = .ok () ∧
      Schema.drawing.check (some .titledLine) .root ≠
        Schema.drawingReversed.check (some .titledLine) .root ∧
      Schema.drawingReversed.check (some .titledLine) .root ≠ .ok () := by
  have hd : Schema.drawing.Built := by decide
  have hr : Schema.drawingReversed.Built := by decide
  have h : (Schema.drawing == Schema.drawingReversed) = true := by decide
  refine ⟨h, ?_, by decide, fun hok => ?_⟩
  · exact (equal_accept_alike hd hr h _ .root _).mp (by decide)
  · exact absurd ((equal_accept_alike hd hr h _ .root .root).mpr hok) (by decide)

end JsonShape
