import JsonShape.Failure.Basic
import JsonShape.Schema.Basic

/-!
# Validation — a document against a schema

`Schema.check` judges a possibly absent value found at a path and stops at
the first mismatch: a record takes its fields in declaration order, an array
its elements from the first. Going into a field or an element extends the
path. Going from a union to the chosen member and from a member to its body
does not, since all of these are about one object.

The equations at the end say what each layer does in terms of
`List.lookup`; after them nobody needs to unfold the recursion.
-/

namespace JsonShape

/-- What validation says: nothing, or the first failure. -/
abbrev Verdict := Except Failure Unit

/-- How a value differs from a primitive kind, if it does. An absent value
is reported as missing, not as one of the wrong type. -/
def Primitive.mismatch? (kind : Primitive) (value? : Option Value) : Option Mismatch :=
  if DynType.of value? = .primitive kind then none
  else match value? with
    | none => some .missing
    | some value => some (.wrongType kind value.dynType)

def Primitive.check (kind : Primitive) (value? : Option Value) (path : Path) :
    Verdict :=
  match kind.mismatch? value? with
  | none => .ok ()
  | some mismatch => .error (mismatch.failureAt path)

/-- The elements of a value that has to be an array. -/
def requireArray (value? : Option Value) (path : Path) : Except Failure (List Value) :=
  match value? with
  | none => .error (Mismatch.missing.failureAt path)
  | some (.array items) => .ok items
  | some value => .error ((Mismatch.wrongShape .array value.dynType).failureAt path)

/-- The entries of a value that has to be an object. -/
def requireObject (value? : Option Value) (path : Path) :
    Except Failure (List (String × Value)) :=
  match value? with
  | none => .error (Mismatch.missing.failureAt path)
  | some (.object entries) => .ok entries
  | some value => .error ((Mismatch.wrongShape .object value.dynType).failureAt path)

/-- The string in an object's discriminator field; anything else there fails
as it would against the kind `string`. -/
def readTag (entries : List (String × Value)) (discriminator : String) (path : Path) :
    Except Failure String :=
  match entries.lookup discriminator with
  | none => .error (Mismatch.missing.failureAt (path.field discriminator))
  | some (.string tag) => .ok tag
  | some value =>
      .error ((Mismatch.wrongType .string value.dynType).failureAt
        (path.field discriminator))

/-- Judges the elements of an array from position `start` on. -/
def checkItems (check : Value → Path → Verdict) (path : Path) :
    Nat → List Value → Verdict
  | _, [] => .ok ()
  | start, item :: rest => do
      check item (path.index start)
      checkItems check path (start + 1) rest

mutual

/-- Judges a possibly absent value found at `path`. -/
def Schema.check : Schema → Option Value → Path → Verdict
  | .primitive kind, value?, path => kind.check value? path
  | .array element, value?, path => do
      let items ← requireArray value? path
      checkItems (fun item here => element.check (some item) here) path 0 items
  | .object layer, value?, path => do
      let entries ← requireObject value? path
      layer.check entries path

/-- Judges the object found at `path`, given by its entries. -/
def Layer.check : Layer → List (String × Value) → Path → Verdict
  | .record ⟨fields⟩, entries, path => Record.checkFields fields entries path
  | .union ⟨discriminator, members⟩, entries, path => do
      let tag ← readTag entries discriminator path
      match Union.checkSelected members tag entries path with
      | some verdict => verdict
      | none =>
          .error ((Mismatch.unknownVariant (Entries.keys members) tag).failureAt
            (path.field discriminator))
  | .member member, entries, path => member.check entries path

/-- Judges an object by a member: its tag first, then the body on the same
object. -/
def Member.check : Member → List (String × Value) → Path → Verdict
  | ⟨discriminator, value, body⟩, entries, path => do
      let tag ← readTag entries discriminator path
      if tag = value then body.check entries path
      else .error ((Mismatch.wrongTag value tag).failureAt (path.field discriminator))

/-- Judges an object by declared fields, in their order. -/
def Record.checkFields :
    List (String × Schema) → List (String × Value) → Path → Verdict
  | [], _, _ => .ok ()
  | (name, schema) :: rest, entries, path => do
      schema.check (entries.lookup name) (path.field name)
      Record.checkFields rest entries path

/-- Judges an object by the first member under the tag, if there is one. -/
def Union.checkSelected :
    List (String × Member) → String → List (String × Value) → Path → Option Verdict
  | [], _, _, _ => none
  | (key, member) :: rest, tag, entries, path =>
      if key = tag then some (member.check entries path)
      else Union.checkSelected rest tag entries path

end

/-- Judges a whole document. -/
def Schema.validate (schema : Schema) (value : Value) : Verdict :=
  schema.check (some value) .root

/-! ## Equations -/

/-- A whole document is judged from the root. -/
theorem Schema.validate_eq (schema : Schema) (value : Value) :
    schema.validate value = schema.check (some value) .root := rfl

theorem Schema.check_primitive (kind : Primitive) (value? : Option Value)
    (path : Path) :
    (Schema.primitive kind).check value? path = kind.check value? path := rfl

theorem Schema.check_array (element : Schema) (value? : Option Value) (path : Path) :
    (Schema.array element).check value? path = (do
      let items ← requireArray value? path
      checkItems (fun item here => element.check (some item) here) path 0 items) := rfl

theorem Schema.check_object (layer : Layer) (value? : Option Value) (path : Path) :
    (Schema.object layer).check value? path = (do
      let entries ← requireObject value? path
      layer.check entries path) := rfl

theorem Layer.check_record (r : Record) (entries : List (String × Value))
    (path : Path) :
    (Layer.record r).check entries path = Record.checkFields r.fields entries path := by
  cases r
  rfl

theorem Layer.check_member (m : Member) (entries : List (String × Value))
    (path : Path) :
    (Layer.member m).check entries path = m.check entries path := rfl

theorem Member.check_eq (m : Member) (entries : List (String × Value)) (path : Path) :
    m.check entries path = (do
      let tag ← readTag entries m.discriminator path
      if tag = m.value then m.body.check entries path
      else
        .error ((Mismatch.wrongTag m.value tag).failureAt
          (path.field m.discriminator))) := by
  cases m
  rfl

/-- The member that judges is the one a lookup finds. -/
theorem Union.checkSelected_eq (members : List (String × Member)) (tag : String)
    (entries : List (String × Value)) (path : Path) :
    Union.checkSelected members tag entries path =
      (members.lookup tag).map (·.check entries path) := by
  induction members with
  | nil => rfl
  | cons e rest ih =>
      obtain ⟨key, member⟩ := e
      by_cases h : key = tag
      · subst h
        rw [Union.checkSelected, if_pos rfl, List.lookup_cons_self]
        rfl
      · rw [Union.checkSelected, if_neg h, Entries.lookup_cons_ne h, ih]

theorem Layer.check_union (u : Union) (entries : List (String × Value)) (path : Path) :
    (Layer.union u).check entries path = (do
      let tag ← readTag entries u.discriminator path
      match u.get? tag with
      | some m => m.check entries path
      | none =>
          .error ((Mismatch.unknownVariant u.memberKeys tag).failureAt
            (path.field u.discriminator))) := by
  obtain ⟨d, members⟩ := u
  rw [Layer.check]
  congr 1
  funext tag
  rw [Union.checkSelected_eq]
  simp only [Union.get?]
  cases members.lookup tag <;> rfl

/-- A record accepts an object when every declared field is accepted. -/
theorem Record.checkFields_eq_ok_iff {fields : List (String × Schema)}
    {entries : List (String × Value)} {path : Path} :
    Record.checkFields fields entries path = .ok () ↔
      ∀ name s, (name, s) ∈ fields →
        s.check (entries.lookup name) (path.field name) = .ok () := by
  induction fields with
  | nil => simp [Record.checkFields]
  | cons f rest ih =>
      obtain ⟨name, schema⟩ := f
      rw [Record.checkFields]
      constructor
      · intro h n s hm
        cases hs : schema.check (entries.lookup name) (path.field name) with
        | error e => rw [hs] at h; cases h
        | ok u =>
            rw [hs] at h
            rcases List.mem_cons.mp hm with e | hm
            · rw [(Prod.mk.inj e).1, (Prod.mk.inj e).2]
              exact hs
            · exact ih.mp h n s hm
      · intro h
        rw [h name schema List.mem_cons_self]
        exact ih.mpr fun n s hm => h n s (List.mem_cons_of_mem _ hm)

/-- An array is accepted when every element is accepted at its own place. -/
theorem checkItems_eq_ok_iff {check : Value → Path → Verdict} {path : Path}
    {items : List Value} {start : Nat} :
    checkItems check path start items = .ok () ↔
      ∀ i item, items[i]? = some item →
        check item (path.index (start + i)) = .ok () := by
  induction items generalizing start with
  | nil => simp [checkItems]
  | cons item rest ih =>
      rw [checkItems]
      constructor
      · intro h i x hx
        cases hc : check item (path.index start) with
        | error e => rw [hc] at h; cases h
        | ok u =>
            rw [hc] at h
            cases i with
            | zero =>
                cases hx
                exact hc
            | succ i =>
                rw [Nat.add_comm i 1, ← Nat.add_assoc]
                exact ih.mp h i x hx
      · intro h
        have hhead : check item (path.index start) = .ok () := h 0 item rfl
        rw [hhead]
        refine ih.mpr fun i x hx => ?_
        rw [Nat.add_assoc, Nat.add_comm 1 i]
        exact h (i + 1) x hx

end JsonShape
