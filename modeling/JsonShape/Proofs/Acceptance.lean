import JsonShape.Proofs.Building
import JsonShape.Proofs.Outcome

/-!
# Acceptance — validation accepts what conforms

Validation goes through a document with a path in hand and stops early.
`Schema.Admits` says without a path, an order or a failure what conforms. A
primitive kind admits the values that it holds of, and an array element by
element; an object is admitted by a layer. A record admits an object when
every declared field admits the possibly absent entry of its name; a member
when its discriminator holds its value and its body admits the object; a
union when the discriminator holds the key of a member that admits the object.

Whatever is accepted conforms, for every schema. The converse needs a union's
keys to be distinct: among members of one key validation takes the first, and
`Admits` any.
-/

namespace JsonShape

/-! ## What conforms -/

/-- Which values a primitive kind holds of: `undefined` of an absent value, and
each of the other kinds of the values that it names. -/
inductive Primitive.HoldsOf : Primitive → Option Value → Prop
  | undefined : HoldsOf .undefined none
  | null : HoldsOf .null (some .null)
  | string (text : String) : HoldsOf .string (some (.string text))
  | number (mantissa : Int) (scale : Nat) :
      HoldsOf .number (some (.number mantissa scale))
  | boolean (value : Bool) : HoldsOf .boolean (some (.boolean value))

mutual

/-- The possibly absent values that a schema admits. -/
inductive Schema.Admits : Schema → Option Value → Prop
  | primitive {kind : Primitive} {value? : Option Value} :
      kind.HoldsOf value? → Schema.Admits (.primitive kind) value?
  | array {element : Schema} {items : List Value} :
      (∀ item ∈ items, Schema.Admits element (some item)) →
      Schema.Admits (.array element) (some (.array items))
  | object {layer : Layer} {entries : List (String × Value)} :
      Layer.Admits layer entries →
        Schema.Admits (.object layer) (some (.object entries))

/-- The objects that a layer admits. -/
inductive Layer.Admits : Layer → List (String × Value) → Prop
  | record {r : Record} {entries : List (String × Value)} :
      (∀ name s, (name, s) ∈ r.fields → Schema.Admits s (entries.lookup name)) →
      Layer.Admits (.record r) entries
  | union {u : Union} {entries : List (String × Value)} {tag : String} {m : Member} :
      entries.lookup u.discriminator = some (.string tag) → (tag, m) ∈ u.members →
      Layer.Admits (.member m) entries → Layer.Admits (.union u) entries
  | member {m : Member} {entries : List (String × Value)} :
      entries.lookup m.discriminator = some (.string m.value) →
      Layer.Admits m.body entries → Layer.Admits (.member m) entries

end

/-! ## What each shape admits -/

/-- The kinds hold of what validation takes them to hold of. -/
theorem Primitive.holdsOf_iff {kind : Primitive} {value? : Option Value} :
    kind.HoldsOf value? ↔ DynType.of value? = .primitive kind := by
  constructor
  · intro h
    cases h <;> rfl
  · intro h
    cases value? with
    | none =>
        cases h
        exact .undefined
    | some value =>
        cases value with
        | null => cases h; exact .null
        | boolean b => cases h; exact .boolean b
        | number m s => cases h; exact .number m s
        | string text => cases h; exact .string text
        | array items => cases h
        | object entries => cases h

theorem Schema.admits_primitive_iff {kind : Primitive} {value? : Option Value} :
    (Schema.primitive kind).Admits value? ↔ DynType.of value? = .primitive kind := by
  rw [← Primitive.holdsOf_iff]
  constructor
  · intro h
    cases h with
    | primitive h => exact h
  · exact .primitive

theorem Schema.admits_array_iff {element : Schema} {value? : Option Value} :
    (Schema.array element).Admits value? ↔
      ∃ items, value? = some (.array items) ∧
        ∀ item ∈ items, element.Admits (some item) := by
  constructor
  · intro h
    cases h with
    | array h => exact ⟨_, rfl, h⟩
  · rintro ⟨items, rfl, h⟩
    exact .array h

theorem Schema.admits_object_iff {layer : Layer} {value? : Option Value} :
    (Schema.object layer).Admits value? ↔
      ∃ entries, value? = some (.object entries) ∧ layer.Admits entries := by
  constructor
  · intro h
    cases h with
    | object h => exact ⟨_, rfl, h⟩
  · rintro ⟨entries, rfl, h⟩
    exact .object h

theorem Layer.admits_record_iff {r : Record} {entries : List (String × Value)} :
    (Layer.record r).Admits entries ↔
      ∀ name s, (name, s) ∈ r.fields → s.Admits (entries.lookup name) := by
  constructor
  · intro h
    cases h with
    | record h => exact h
  · exact .record

theorem Layer.admits_union_iff {u : Union} {entries : List (String × Value)} :
    (Layer.union u).Admits entries ↔
      ∃ tag m, entries.lookup u.discriminator = some (.string tag) ∧
        (tag, m) ∈ u.members ∧ (Layer.member m).Admits entries := by
  constructor
  · intro h
    cases h with
    | union htag hm h => exact ⟨_, _, htag, hm, h⟩
  · rintro ⟨tag, m, htag, hm, h⟩
    exact .union htag hm h

theorem Layer.admits_member_iff {m : Member} {entries : List (String × Value)} :
    (Layer.member m).Admits entries ↔
      entries.lookup m.discriminator = some (.string m.value) ∧
        m.body.Admits entries := by
  constructor
  · intro h
    cases h with
    | member htag h => exact ⟨htag, h⟩
  · rintro ⟨htag, h⟩
    exact .member htag h

/-! ## What is accepted conforms -/

theorem admits_of_accepted :
    LayeredCases
      (fun s => ∀ value? path, s.check value? path = .ok () → s.Admits value?)
      (fun l => ∀ entries path, l.check entries path = .ok () → l.Admits entries) where
  primitive kind value? path h := by
    rw [Schema.check_primitive, Primitive.check_eq_ok_iff] at h
    exact Schema.admits_primitive_iff.mpr h
  array element ih value? path h := by
    obtain ⟨items, rfl, hitems⟩ := Schema.check_array_eq_ok_iff.mp h
    -- an element is accepted at its own index, wherever that is
    refine .array fun item hm => ?_
    obtain ⟨i, hi⟩ := List.mem_iff_getElem?.mp hm
    exact ih _ _ (hitems i item hi)
  object layer ih value? path h := by
    obtain ⟨entries, rfl, hlayer⟩ := Schema.check_object_eq_ok_iff.mp h
    exact .object (ih entries path hlayer)
  record r ih entries path h := by
    rw [Layer.check_record, Record.checkFields_eq_ok_iff] at h
    exact .record fun name s hm => ih name s hm _ _ (h name s hm)
  union u ih entries path h := by
    obtain ⟨tag, m, htag, hget, hmember⟩ := Layer.check_union_eq_ok_iff.mp h
    have hm : (tag, m) ∈ u.members := Entries.mem_of_lookup hget
    exact .union htag hm ((ih tag m hm).2 entries path hmember)
  member m ih entries path h := by
    obtain ⟨htag, hbody⟩ := Layer.check_member_eq_ok_iff.mp h
    exact .member htag (ih entries path hbody)

theorem Schema.admits_of_check {s : Schema} {value? : Option Value} {path : Path}
    (h : s.check value? path = .ok ()) : s.Admits value? :=
  Schema.of_cases admits_of_accepted s value? path h

/-! ## What conforms is accepted -/

theorem accepted_of_admits :
    LayeredCases
      (fun s => s.WellFormed → ∀ value?, s.Admits value? →
        ∀ path, s.check value? path = .ok ())
      (fun l => l.WellFormed → ∀ entries, l.Admits entries →
        ∀ path, l.check entries path = .ok ()) where
  primitive kind _ value? h path := by
    rw [Schema.check_primitive, Primitive.check_eq_ok_iff]
    exact Schema.admits_primitive_iff.mp h
  array element ih hw value? h path := by
    obtain ⟨items, rfl, hitems⟩ := Schema.admits_array_iff.mp h
    refine Schema.check_array_eq_ok_iff.mpr ⟨items, rfl, fun i item hi => ?_⟩
    exact ih hw _ (hitems item (List.mem_of_getElem? hi)) _
  object layer ih hw value? h path := by
    obtain ⟨entries, rfl, hlayer⟩ := Schema.admits_object_iff.mp h
    exact Schema.check_object_eq_ok_iff.mpr ⟨entries, rfl, ih hw entries hlayer path⟩
  record r ih hw entries h path := by
    rw [Layer.wellFormed_record] at hw
    rw [Layer.check_record, Record.checkFields_eq_ok_iff]
    intro name s hm
    exact ih name s hm (hw.2 name s hm) _ (Layer.admits_record_iff.mp h name s hm) _
  union u ih hw entries h path := by
    rw [Layer.wellFormed_union] at hw
    obtain ⟨tag, m, htag, hm, hmember⟩ := Layer.admits_union_iff.mp h
    -- the keys are distinct, so the member that is there is the one that is found
    have hget : u.get? tag = some m := (Entries.lookup_eq_some_iff hw.1).mpr hm
    have hwm : (Layer.member m).WellFormed :=
      Layer.wellFormed_member.mpr (hw.2 tag m hm).2
    exact Layer.check_union_eq_ok_iff.mpr
      ⟨tag, m, htag, hget, (ih tag m hm).2 hwm entries hmember path⟩
  member m ih hw entries h path := by
    obtain ⟨htag, hbody⟩ := Layer.admits_member_iff.mp h
    exact Layer.check_member_eq_ok_iff.mpr
      ⟨htag, ih (Layer.wellFormed_member.mp hw) entries hbody path⟩

theorem Schema.check_of_admits {s : Schema} (hw : s.WellFormed) {value? : Option Value}
    (h : s.Admits value?) (path : Path) : s.check value? path = .ok () :=
  Schema.of_cases accepted_of_admits s hw value? h path

/-- A schema that was built accepts a possibly absent value, wherever it is
found, exactly when it admits it. -/
theorem Schema.check_eq_ok_iff_admits {s : Schema} (h : s.Built) (value? : Option Value)
    (path : Path) : s.check value? path = .ok () ↔ s.Admits value? :=
  ⟨Schema.admits_of_check, fun ha => Schema.check_of_admits h.wellFormed ha path⟩

theorem Schema.drawing_admits_lines_by_style :
    Schema.drawing.Built ∧
      Schema.drawing.Admits (some (.dashedLine [.number 4 0])) ∧
      ¬ Schema.drawing.Admits
        (some (.object [("kind", .string "line"), ("gaps", .array [])])) := by
  have hbuilt : Schema.drawing.Built := by decide
  refine ⟨hbuilt, (check_eq_ok_iff_admits hbuilt _ .root).mp (by decide), fun h => ?_⟩
  exact absurd ((check_eq_ok_iff_admits hbuilt _ .root).mpr h) (by decide)

end JsonShape
