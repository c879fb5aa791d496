/-!
# Value — JSON documents and their types

A document is a tree of values. An object is a keyed list: its keys are
distinct in every document that a reader produces, and a lookup takes the
first. An absent value, such as a field that an object does not have, is
`none` wherever a value is optional.

A validator never looks at a number or a boolean more closely than at its
type: one of the five primitive kinds a schema may ask for, or one of the two
containers. Being absent is a type of its own, `undefined`, and is not the
explicit `null`.
-/

namespace JsonShape

/-! ## Types -/

/-- The kinds a primitive schema asks for. No present value has the kind
`undefined`; it is the kind of an absent one. -/
inductive Primitive where
  | undefined
  | null
  | string
  | number
  | boolean
  deriving DecidableEq, Repr

/-- The word by which a primitive kind is written in a failure and in a
description. -/
def Primitive.name : Primitive → String
  | .undefined => "undefined"
  | .null => "null"
  | .string => "string"
  | .number => "number"
  | .boolean => "boolean"

/-- The kind that a word stands for. -/
def Primitive.ofName? (name : String) : Option Primitive :=
  [.undefined, .null, .string, .number, .boolean].find? (·.name == name)

@[simp] theorem Primitive.ofName?_name (k : Primitive) : ofName? k.name = some k := by
  cases k <;> decide

theorem Primitive.name_inj {k l : Primitive} (h : k.name = l.name) : k = l := by
  have hk := ofName?_name k
  rw [h, ofName?_name] at hk
  exact (Option.some.inj hk).symm

/-- The two types of value that hold further values. -/
inductive Container where
  | array
  | object
  deriving DecidableEq, Repr

def Container.name : Container → String
  | .array => "array"
  | .object => "object"

/-- The dynamic type of a possibly absent value. -/
inductive DynType where
  | primitive (kind : Primitive)
  | container (shape : Container)
  deriving DecidableEq, Repr

def DynType.name : DynType → String
  | .primitive kind => kind.name
  | .container shape => shape.name

/-- Distinct types are written by distinct words, so a type test may compare
either. -/
theorem DynType.name_inj {a b : DynType} (h : a.name = b.name) : a = b := by
  rcases a with k | c <;> rcases b with l | d
  · exact congrArg _ (Primitive.name_inj h)
  · cases k <;> cases d <;> exact absurd h (by decide)
  · cases c <;> cases l <;> exact absurd h (by decide)
  · cases c <;> cases d <;> simp_all [DynType.name, Container.name]

/-! ## Values -/

/-- A JSON value. The number is `mantissa * 10 ^ (-scale)`, so every finite
decimal is one, of whatever size. -/
inductive Value where
  | null
  | boolean (value : Bool)
  | number (mantissa : Int) (scale : Nat)
  | string (text : String)
  | array (items : List Value)
  | object (entries : List (String × Value))
  deriving Inhabited

def Value.dynType : Value → DynType
  | .null => .primitive .null
  | .boolean _ => .primitive .boolean
  | .number _ _ => .primitive .number
  | .string _ => .primitive .string
  | .array _ => .container .array
  | .object _ => .container .object

/-- The type of a possibly absent value: an absent one is `undefined`. -/
def DynType.of : Option Value → DynType
  | none => .primitive .undefined
  | some value => value.dynType

@[simp] theorem DynType.of_none : DynType.of none = .primitive .undefined := rfl

@[simp] theorem DynType.of_some (value : Value) :
    DynType.of (some value) = value.dynType := rfl

/-- Only an absent value is `undefined`. -/
theorem Value.dynType_ne_undefined (value : Value) :
    value.dynType ≠ .primitive .undefined := by
  cases value <;> simp [dynType]

/-- The text of a string, and nothing for any other value. -/
def Value.text? : Value → Option String
  | .string text => some text
  | _ => none

end JsonShape
