import JsonShape.Path.Basic
import JsonShape.Schema.Basic

/-!
# Selection — the layers that an object's tags select

A layer is applied to one object together with the layers that the object's
own tags select: a union, the member that its tag names, that member's body,
and so on down to a record. `Layer.applied` lists them. Through the record
among them a schema assigns schemas to the fields of the object, and
`Schema.Assigns` follows such assignments through a document.
-/

namespace JsonShape

/-- The string in a field of an object, if a string is there. -/
def tagAt (entries : List (String × Value)) (name : String) : Option String :=
  (entries.lookup name).bind Value.text?

/-- The field whose string a layer looks at first. -/
def Layer.discriminator? : Layer → Option String
  | .record _ => none
  | .union u => some u.discriminator
  | .member m => some m.discriminator

mutual

/-- The layers applied to an object, from the given one down. -/
def Layer.applied : Layer → List (String × Value) → List Layer
  | .record ⟨fields⟩, _ => [.record ⟨fields⟩]
  | .union ⟨d, members⟩, entries =>
      .union ⟨d, members⟩ ::
        match tagAt entries d with
        | some tag => Union.appliedSelected members tag entries
        | none => []
  | .member m, entries => m.applied entries

def Member.applied : Member → List (String × Value) → List Layer
  | ⟨d, value, body⟩, entries =>
      .member ⟨d, value, body⟩ ::
        if tagAt entries d = some value then body.applied entries else []

/-- The layers of the member under the tag. -/
def Union.appliedSelected :
    List (String × Member) → String → List (String × Value) → List Layer
  | [], _, _ => []
  | (key, m) :: rest, tag, entries =>
      if key = tag then m.applied entries else Union.appliedSelected rest tag entries

end

theorem Union.appliedSelected_eq (members : List (String × Member)) (tag : String)
    (entries : List (String × Value)) :
    Union.appliedSelected members tag entries =
      match members.lookup tag with
      | some m => m.applied entries
      | none => [] := by
  induction members with
  | nil => rfl
  | cons e rest ih =>
      obtain ⟨key, m⟩ := e
      by_cases h : key = tag
      · subst h
        rw [Union.appliedSelected, if_pos rfl, List.lookup_cons_self]
      · rw [Union.appliedSelected, if_neg h, Entries.lookup_cons_ne h, ih]

/-- `Assigns s v q t`: from the schema `s` at the value `v`, the descent `q`
through elements and declared fields comes to the schema `t`. The layers that
apply to an object are passed on the way to one of its fields and add nothing
to `q`; no descent ends at a bare layer, since a layer asks only of objects and
has no answer to any other value. No step goes through a field that one of the
applied layers reads as its tag. -/
inductive Schema.Assigns : Schema → Option Value → List Segment → Schema → Prop
  | here {s : Schema} {value? : Option Value} : Schema.Assigns s value? [] s
  | item {element t : Schema} {items : List Value} {item : Value} {position : Nat}
      {rest : List Segment} :
      items[position]? = some item → Schema.Assigns element (some item) rest t →
      Schema.Assigns (.array element) (some (.array items)) (.index position :: rest) t
  | field {layer : Layer} {entries : List (String × Value)} {r : Record} {name : String}
      {s t : Schema} {rest : List Segment} :
      .record r ∈ layer.applied entries → (name, s) ∈ r.fields →
      (∀ l ∈ layer.applied entries, l.discriminator? ≠ some name) →
      Schema.Assigns s (entries.lookup name) rest t →
      Schema.Assigns (.object layer) (some (.object entries)) (.field name :: rest) t

end JsonShape
