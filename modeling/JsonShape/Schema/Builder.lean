import JsonShape.Failure.Basic
import JsonShape.Schema.Basic

/-!
# Schema — building records, unions and members

A record is declared field by field and a union member by member. Declaring
a name again replaces what it stood for and keeps its first position. A
union keys each member by the member's own value; a member that the union
makes takes the union's discriminator, one that was made before keeps its
own.

A discriminator is a string in the document. In a schema its value may be
given as anything that has a text: an integer, a truth value, a kind, a code
or a place. The text is taken once, when the member is made, so tags of
different sorts with the same text select the same member.
-/

namespace JsonShape

/-- A discriminator value as a schema's author gives it. -/
inductive Tag where
  | string (text : String)
  | integer (value : Int)
  | boolean (value : Bool)
  | kind (kind : Primitive)
  | code (kind : FailureKind)
  | path (path : Path)
  | segment (segment : Segment)
  | failure (failure : Failure)
  deriving DecidableEq, Repr

/-- The string that a document has to hold. -/
def Tag.text : Tag → String
  | .string s => s
  | .integer n => Int.repr n
  | .boolean true => "true"
  | .boolean false => "false"
  | .kind k => k.name
  | .code k => k.code
  | .path p => p.text
  | .segment s => s.text
  | .failure f => f.text

namespace Member

/-- The layer for objects whose field `discriminator` holds the tag's text. -/
def make (discriminator : String) (tag : Tag) (body : Layer) : Member :=
  ⟨discriminator, tag.text, body⟩

@[simp] theorem discriminator_make (discriminator : String) (tag : Tag) (body : Layer) :
    (make discriminator tag body).discriminator = discriminator := rfl

@[simp] theorem value_make (discriminator : String) (tag : Tag) (body : Layer) :
    (make discriminator tag body).value = tag.text := rfl

@[simp] theorem body_make (discriminator : String) (tag : Tag) (body : Layer) :
    (make discriminator tag body).body = body := rfl

end Member

namespace Record

/-- A record that asks for no field. -/
def empty : Record := ⟨[]⟩

/-- Declares a field. -/
def field (record : Record) (name : String) (schema : Schema) : Record :=
  ⟨Entries.put record.fields name schema⟩

/-- The record with the fields declared in it, one after another. -/
def withFields (record : Record) (fields : List (String × Schema)) : Record :=
  fields.foldl (fun record f => record.field f.1 f.2) record

/-- The record that declares the fields one after another. -/
def ofFields (fields : List (String × Schema)) : Record :=
  empty.withFields fields

@[simp] theorem fields_empty : empty.fields = [] := rfl

@[simp] theorem fields_field (record : Record) (name : String) (schema : Schema) :
    (record.field name schema).fields = Entries.put record.fields name schema := rfl

theorem fields_withFields (record : Record) (fields : List (String × Schema)) :
    (record.withFields fields).fields = Entries.putAll record.fields fields :=
  (List.foldl_hom Record.fields fun _ _ => rfl).symm

theorem fields_ofFields (fields : List (String × Schema)) :
    (ofFields fields).fields = Entries.ofList fields :=
  empty.fields_withFields fields

theorem get?_field_self (record : Record) (name : String) (schema : Schema) :
    (record.field name schema).get? name = some schema :=
  Entries.lookup_put_self ..

theorem get?_field_ne (record : Record) {name other : String} (h : other ≠ name)
    (schema : Schema) : (record.field name schema).get? other = record.get? other :=
  Entries.lookup_put_ne _ h _

end Record

/-- How a union comes by a member. -/
inductive Union.Addition where
  /-- made by the union, with the union's discriminator -/
  | member (tag : Tag) (body : Layer)
  /-- made before, with a discriminator of its own -/
  | variant (member : Member)

/-- The member that is added to a union on that discriminator. -/
def Union.Addition.made (discriminator : String) : Union.Addition → Member
  | .member tag body => .make discriminator tag body
  | .variant m => m

/-- The text under which the member is entered. -/
def Union.Addition.key : Union.Addition → String
  | .member tag _ => tag.text
  | .variant m => m.value

@[simp] theorem Union.Addition.value_made (discriminator : String)
    (addition : Addition) :
    (addition.made discriminator).value = addition.key := by
  cases addition <;> rfl

namespace Union

/-- A union without members. -/
def on (discriminator : String) : Union := ⟨discriminator, []⟩

/-- Adds a member made before, keyed by its value. -/
def variant (union : Union) (member : Member) : Union :=
  ⟨union.discriminator, Entries.put union.members member.value member⟩

/-- Makes a member with this union's discriminator and adds it. -/
def member (union : Union) (tag : Tag) (body : Layer) : Union :=
  union.variant (Member.make union.discriminator tag body)

def add (union : Union) : Addition → Union
  | .member tag body => union.member tag body
  | .variant m => union.variant m

/-- The union with the members added to it, one after another. -/
def withAdditions (union : Union) (additions : List Addition) : Union :=
  additions.foldl add union

/-- The union that receives the members one after another. -/
def ofAdditions (discriminator : String) (additions : List Addition) : Union :=
  (on discriminator).withAdditions additions

@[simp] theorem discriminator_on (discriminator : String) :
    (on discriminator).discriminator = discriminator := rfl

@[simp] theorem members_on (discriminator : String) :
    (on discriminator).members = [] := rfl

@[simp] theorem discriminator_variant (union : Union) (member : Member) :
    (union.variant member).discriminator = union.discriminator := rfl

@[simp] theorem members_variant (union : Union) (member : Member) :
    (union.variant member).members =
      Entries.put union.members member.value member := rfl

@[simp] theorem discriminator_member (union : Union) (tag : Tag) (body : Layer) :
    (union.member tag body).discriminator = union.discriminator := rfl

@[simp] theorem members_member (union : Union) (tag : Tag) (body : Layer) :
    (union.member tag body).members =
      Entries.put union.members tag.text
        (Member.make union.discriminator tag body) := rfl

@[simp] theorem discriminator_add (union : Union) (addition : Addition) :
    (union.add addition).discriminator = union.discriminator := by
  cases addition <;> rfl

theorem add_eq_variant (union : Union) (addition : Addition) :
    union.add addition = union.variant (addition.made union.discriminator) := by
  cases addition <;> rfl

@[simp] theorem discriminator_withAdditions (union : Union)
    (additions : List Addition) :
    (union.withAdditions additions).discriminator = union.discriminator := by
  induction additions generalizing union with
  | nil => rfl
  | cons a rest ih => exact (ih (union.add a)).trans (discriminator_add union a)

/-- Additions write the members they make, keyed by their values. -/
theorem members_withAdditions (union : Union) (additions : List Addition) :
    (union.withAdditions additions).members =
      Entries.putAll union.members
        (additions.map fun a => (a.key, a.made union.discriminator)) := by
  induction additions generalizing union with
  | nil => rfl
  | cons a rest ih =>
      have hadd : (union.add a).members =
          Entries.put union.members a.key (a.made union.discriminator) := by
        rw [add_eq_variant, members_variant, Addition.value_made]
      rw [withAdditions, List.foldl_cons, ← withAdditions, ih, discriminator_add, hadd]
      rfl

@[simp] theorem discriminator_ofAdditions (discriminator : String)
    (additions : List Addition) :
    (ofAdditions discriminator additions).discriminator = discriminator :=
  (on discriminator).discriminator_withAdditions additions

theorem members_ofAdditions (discriminator : String) (additions : List Addition) :
    (ofAdditions discriminator additions).members =
      Entries.ofList (additions.map fun a => (a.key, a.made discriminator)) :=
  (on discriminator).members_withAdditions additions

theorem get?_variant_self (union : Union) (member : Member) :
    (union.variant member).get? member.value = some member :=
  Entries.lookup_put_self ..

theorem get?_variant_ne (union : Union) (member : Member) {other : String}
    (h : other ≠ member.value) : (union.variant member).get? other = union.get? other :=
  Entries.lookup_put_ne _ h _

end Union

end JsonShape
