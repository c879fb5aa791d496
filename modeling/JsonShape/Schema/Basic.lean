import JsonShape.Entries
import JsonShape.Value.Basic

/-!
# Schema — the shapes a document may be asked to have

A schema asks for a primitive kind, for an array of a shape, or for an
object. What it asks of an object is a *layer*: a record looks at fields, a
member first compares one field with a fixed string, a union lets the string
in that field choose one of its members. A member's body is a layer again,
applied to the same object, so layers stack without going deeper into the
document.

Schemas and layers are defined together and hold their parts in lists, so
the induction that follows the types has companions for those lists. It is
stated once, with the parts given by membership: who shows the six cases of
`LayeredCases P Q` has `P` of every schema and `Q` of every layer. A union's
member is given twice there, as its body and as a layer of its own.
-/

namespace JsonShape

mutual

/-- What is asked of a possibly absent value. -/
inductive Schema where
  | primitive (kind : Primitive)
  | array (element : Schema)
  | object (layer : Layer)

/-- What is asked of an object. -/
inductive Layer where
  | record (record : Record)
  | union (union : Union)
  | member (member : Member)

/-- Named fields in declaration order; fields that are not declared are
nobody's business. -/
structure Record where
  fields : List (String × Schema)

/-- Members told apart by the string in the field `discriminator`, each under
the string that selects it. -/
structure Union where
  discriminator : String
  members : List (String × Member)

/-- A layer for the objects whose field `discriminator` holds the string
`value`. -/
structure Member where
  discriminator : String
  value : String
  body : Layer

end

/-- The layer of an object schema. -/
def Schema.layer? : Schema → Option Layer
  | .object layer => some layer
  | _ => none

def Layer.kindName : Layer → String
  | .record _ => "record"
  | .union _ => "union"
  | .member _ => "member"

/-- The word for what a schema is, as shown to people. -/
def Schema.kindName : Schema → String
  | .primitive kind => kind.name
  | .array _ => "array"
  | .object layer => layer.kindName

/-! ## Reading the parts -/

namespace Record

/-- The schema declared for a field. -/
def get? (record : Record) (name : String) : Option Schema :=
  record.fields.lookup name

def names (record : Record) : List String :=
  Entries.keys record.fields

def size (record : Record) : Nat :=
  record.fields.length

end Record

namespace Union

/-- The member selected by a discriminator value. -/
def get? (union : Union) (value : String) : Option Member :=
  union.members.lookup value

/-- The accepted discriminator values in declaration order. -/
def memberKeys (union : Union) : List String :=
  Entries.keys union.members

end Union

/-! ## Induction -/

/-- The six cases of an induction that proves `P` of schemas and `Q` of
layers, each from the parts. -/
structure LayeredCases (P : Schema → Prop) (Q : Layer → Prop) : Prop where
  primitive : ∀ kind, P (.primitive kind)
  array : ∀ element, P element → P (.array element)
  object : ∀ layer, Q layer → P (.object layer)
  record : ∀ r : Record, (∀ name s, (name, s) ∈ r.fields → P s) → Q (.record r)
  union : ∀ u : Union,
    (∀ key m, (key, m) ∈ u.members → Q m.body ∧ Q (.member m)) → Q (.union u)
  member : ∀ m : Member, Q m.body → Q (.member m)

variable {P : Schema → Prop} {Q : Layer → Prop}

mutual

theorem Schema.of_cases (h : LayeredCases P Q) : ∀ s : Schema, P s
  | .primitive kind => h.primitive kind
  | .array element => h.array element (Schema.of_cases h element)
  | .object layer => h.object layer (Layer.of_cases h layer)

theorem Layer.of_cases (h : LayeredCases P Q) : ∀ l : Layer, Q l
  | .record ⟨fields⟩ => h.record ⟨fields⟩ (Record.fields_of_cases h fields)
  | .union ⟨d, members⟩ => h.union ⟨d, members⟩ (Union.members_of_cases h members)
  | .member ⟨d, value, body⟩ => h.member ⟨d, value, body⟩ (Layer.of_cases h body)

theorem Record.fields_of_cases (h : LayeredCases P Q) :
    ∀ (fields : List (String × Schema)) (name : String) (s : Schema),
      (name, s) ∈ fields → P s
  | (_, t) :: rest, name, s, hm => by
      have ht := Schema.of_cases h t
      rcases List.mem_cons.mp hm with e | hm
      · rw [(Prod.mk.inj e).2]
        exact ht
      · exact Record.fields_of_cases h rest name s hm

theorem Union.members_of_cases (h : LayeredCases P Q) :
    ∀ (members : List (String × Member)) (key : String) (m : Member),
      (key, m) ∈ members → Q m.body ∧ Q (.member m)
  | (_, ⟨d, value, body⟩) :: rest, key, m, hm => by
      have hb := Layer.of_cases h body
      rcases List.mem_cons.mp hm with e | hm
      · rw [(Prod.mk.inj e).2]
        exact ⟨hb, h.member ⟨d, value, body⟩ hb⟩
      · exact Union.members_of_cases h rest key m hm

end

end JsonShape
