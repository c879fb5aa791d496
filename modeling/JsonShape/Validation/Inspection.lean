import JsonShape.Validation.Selection
import JsonShape.Value.Navigation

/-!
# Inspection — what of a document a schema looks at

A layer inspects few of an object's names: the fields it declares and the
discriminators it reads. Two relations on documents say when they differ only
in what is not looked at. `Schema.Unseen` is one change under a name that is
not inspected, or one to the order of keys. `Value.SameOutline` together with
`Schema.TagsKept` allows other leaves of the same type, save for the strings
that an applied layer reads as its tag.
-/

namespace JsonShape

mutual

/-- The names that a layer inspects at an object, whatever its tags. -/
def Layer.inspected : Layer → List String
  | .record ⟨fields⟩ => Entries.keys fields
  | .union ⟨d, members⟩ => d :: Union.inspectedByMembers members
  | .member m => m.inspected

def Member.inspected : Member → List String
  | ⟨d, _, body⟩ => d :: body.inspected

def Union.inspectedByMembers : List (String × Member) → List String
  | [] => []
  | (_, m) :: rest => m.inspected ++ Union.inspectedByMembers rest

end

theorem Union.inspectedByMembers_eq (members : List (String × Member)) :
    Union.inspectedByMembers members = members.flatMap fun e => e.2.inspected := by
  induction members with
  | nil => rfl
  | cons e rest ih => rw [Union.inspectedByMembers, ih, List.flatMap_cons]

/-- The names that a schema inspects at an object. -/
def Schema.inspected : Schema → List String
  | .object layer => layer.inspected
  | _ => []

/-! ## Undeclared fields and the order of keys -/

/-- Two possibly absent values that read alike as a tag: of one type, and of
one text if they are strings. -/
def SameTag (a b : Option Value) : Prop :=
  DynType.of a = DynType.of b ∧ a.bind Value.text? = b.bind Value.text?

/-- The values differ at most in the order of keys, in objects at any depth. -/
inductive Value.Reordered : Value → Value → Prop
  | refl {v : Value} : Value.Reordered v v
  | array {a b : List Value} : a.length = b.length →
      (∀ (i : Nat) x y, a[i]? = some x → b[i]? = some y → Value.Reordered x y) →
      Value.Reordered (.array a) (.array b)
  | object {a b : List (String × Value)} : (Entries.keys a).Perm (Entries.keys b) →
      (∀ key x y, a.lookup key = some x → b.lookup key = some y → Value.Reordered x y) →
      Value.Reordered (.object a) (.object b)

/-- `s.Unseen v w`: one change leads from `v` to `w`, made where the schema
`s` does not look. -/
inductive Schema.Unseen : Schema → Value → Value → Prop
  /-- the keys of objects are put in another order -/
  | reorder {s : Schema} {v w : Value} : Value.Reordered v w → Schema.Unseen s v w
  /-- an entry is added, replaced or taken out under a name that is not
  inspected -/
  | entry {s : Schema} {entries : List (String × Value)} {name : String}
      {new? : Option Value} :
      name ∉ s.inspected →
      Schema.Unseen s (.object entries) (.object (Entries.assign entries name new?))
  /-- an element is changed unseen -/
  | item {element : Schema} {items : List Value} {position : Nat} {x y : Value} :
      items[position]? = some x → Schema.Unseen element x y →
      Schema.Unseen (.array element) (.array items) (.array (items.set position y))
  /-- the entry of a field is changed, unseen by every schema that an applied
  record declares for the field -/
  | field {layer : Layer} {entries : List (String × Value)} {name : String}
      {x y : Value} :
      entries.lookup name = some x → SameTag (some x) (some y) →
      (∀ r s, .record r ∈ layer.applied entries → (name, s) ∈ r.fields →
        Schema.Unseen s x y) →
      Schema.Unseen (.object layer) (.object entries)
        (.object (Entries.assign entries name (some y)))

/-! ## The contents of leaves -/

/-- The values differ at most in what numbers, booleans and strings they
hold. -/
inductive Value.SameOutline : Value → Value → Prop
  | null : Value.SameOutline .null .null
  | boolean {a b : Bool} : Value.SameOutline (.boolean a) (.boolean b)
  | number {m n : Int} {i j : Nat} : Value.SameOutline (.number m i) (.number n j)
  | string {a b : String} : Value.SameOutline (.string a) (.string b)
  | array {a b : List Value} : a.length = b.length →
      (∀ (i : Nat) x y, a[i]? = some x → b[i]? = some y → Value.SameOutline x y) →
      Value.SameOutline (.array a) (.array b)
  | object {a b : List (String × Value)} : Entries.keys a = Entries.keys b →
      (∀ key x y, a.lookup key = some x → b.lookup key = some y →
        Value.SameOutline x y) →
      Value.SameOutline (.object a) (.object b)

/-- Wherever the schema applies layers to an object, the strings that these
layers read as tags are the same in both values. -/
inductive Schema.TagsKept : Schema → Value → Value → Prop
  | primitive {kind : Primitive} {v w : Value} : Schema.TagsKept (.primitive kind) v w
  | array {element : Schema} {v w : Value} :
      (∀ a b (i : Nat) x y, v = .array a → w = .array b → a[i]? = some x →
        b[i]? = some y → Schema.TagsKept element x y) →
      Schema.TagsKept (.array element) v w
  | object {layer : Layer} {v w : Value} :
      (∀ a b l d, v = .object a → w = .object b → l ∈ layer.applied a →
        l.discriminator? = some d → tagAt a d = tagAt b d) →
      (∀ a b r name s x y, v = .object a → w = .object b → .record r ∈ layer.applied a →
        (name, s) ∈ r.fields → a.lookup name = some x → b.lookup name = some y →
        Schema.TagsKept s x y) →
      Schema.TagsKept (.object layer) v w

end JsonShape
