import JsonShape.Schema.Builder

/-!
# Description — what a schema tells about itself

A description is the public view of a schema: its kind in a word, and the
views that its shape offers, such as the fields of a record in declaration
order. `Description.rebuild?` reads a description back by calling the
builders again, so a description that loses nothing can be rebuilt.
-/

namespace JsonShape

mutual

/-- The views that a schema offers, by its shape. -/
inductive Description where
  | primitive (name : String)
  | array (element : Description)
  | record (size : Nat) (fields : List (String × Description))
  | union (discriminator : String) (keys : List String)
      (members : List MemberDescription)
  | member (member : MemberDescription)

/-- The views that a member offers, in a union or on its own. -/
structure MemberDescription where
  discriminator : String
  value : String
  body : Description

end

/-- The word that a description opens with. -/
def Description.kindName : Description → String
  | .primitive name => name
  | .array _ => "array"
  | .record _ _ => "record"
  | .union _ _ _ => "union"
  | .member _ => "member"

mutual

def Schema.describe : Schema → Description
  | .primitive kind => .primitive kind.name
  | .array element => .array element.describe
  | .object layer => layer.describe

def Layer.describe : Layer → Description
  | .record ⟨fields⟩ => .record fields.length (Record.describeFields fields)
  | .union ⟨discriminator, members⟩ =>
      .union discriminator (Entries.keys members) (Union.describeMembers members)
  | .member member => .member member.describe

def Member.describe : Member → MemberDescription
  | ⟨discriminator, value, body⟩ => ⟨discriminator, value, body.describe⟩

def Record.describeFields : List (String × Schema) → List (String × Description)
  | [] => []
  | (name, schema) :: rest => (name, schema.describe) :: Record.describeFields rest

def Union.describeMembers : List (String × Member) → List MemberDescription
  | [] => []
  | (_, member) :: rest => member.describe :: Union.describeMembers rest

end

/-- What a schema holds under a name. -/
inductive Part where
  | field (schema : Schema)
  | member (member : Member)

/-- A record's field of that name, a union's member of that value; no other
schema holds anything under a name. -/
def Schema.part? : Schema → String → Option Part
  | .object (.record r), name => (r.get? name).map .field
  | .object (.union u), name => (u.get? name).map .member
  | _, _ => none

/-! ## Reading a description back -/

mutual

/-- The schema that the builders make from a description, bottom up. -/
def Description.rebuild? : Description → Option Schema
  | .primitive name => (Primitive.ofName? name).map .primitive
  | .array element => element.rebuild?.map .array
  | .record _ fields => do
      let fields ← Description.rebuildFields? fields
      return .object (.record (.ofFields fields))
  | .union discriminator _ members => do
      let members ← Description.rebuildMembers? members
      return .object (.union (.ofAdditions discriminator (members.map .variant)))
  | .member member => do
      let member ← member.rebuild?
      return .object (.member member)

/-- A member's body is read back as a schema, which has to be of an object. -/
def MemberDescription.rebuild? : MemberDescription → Option Member
  | ⟨discriminator, value, body⟩ => do
      let schema ← body.rebuild?
      let layer ← schema.layer?
      return .make discriminator (.string value) layer

def Description.rebuildFields? :
    List (String × Description) → Option (List (String × Schema))
  | [] => some []
  | (name, field) :: rest => do
      let schema ← field.rebuild?
      let rest ← Description.rebuildFields? rest
      return (name, schema) :: rest

def Description.rebuildMembers? : List MemberDescription → Option (List Member)
  | [] => some []
  | member :: rest => do
      let member ← member.rebuild?
      let rest ← Description.rebuildMembers? rest
      return member :: rest

end

/-! ## Equations -/

theorem Schema.kindName_describe (schema : Schema) :
    schema.describe.kindName = schema.kindName := by
  rcases schema with kind | element | layer
  · rfl
  · rfl
  · rcases layer with r | u | m
    · cases r; rfl
    · cases u; rfl
    · rfl

theorem Record.describeFields_eq (fields : List (String × Schema)) :
    Record.describeFields fields = fields.map fun f => (f.1, f.2.describe) := by
  induction fields with
  | nil => rfl
  | cons f rest ih => rw [Record.describeFields, ih, List.map_cons]

theorem Union.describeMembers_eq (members : List (String × Member)) :
    Union.describeMembers members = members.map fun e => e.2.describe := by
  induction members with
  | nil => rfl
  | cons e rest ih => rw [Union.describeMembers, ih, List.map_cons]

end JsonShape
