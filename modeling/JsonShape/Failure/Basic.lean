import JsonShape.Path.Basic
import JsonShape.Value.Basic

/-!
# Failure — what a rejected document is told

A failure names a position, a kind, a message and, where it makes sense,
what was expected there and what was found. It is compared by content and
rendered as an indented outline of its path above the message.

There are five ways in which a value can fail to be what a schema asks for.
A mismatch holds exactly the data of its cause; the kind, the message and
the two texts of the failure follow from it, so they cannot disagree.
-/

namespace JsonShape

/-- Why a document may be rejected. -/
inductive FailureKind where
  | missing
  | typeMismatch
  | shapeMismatch
  | unknownVariant
  | discriminatorMismatch
  deriving DecidableEq, Repr

/-- The stable word for a kind, by which programs tell failures apart. -/
def FailureKind.code : FailureKind → String
  | .missing => "missing"
  | .typeMismatch => "invalid_type"
  | .shapeMismatch => "invalid_shape"
  | .unknownVariant => "unknown_variant"
  | .discriminatorMismatch => "discriminator_mismatch"

/-- A rejection at one position of a document. -/
structure Failure where
  path : Path
  kind : FailureKind
  message : String
  expected : Option String := none
  got : Option String := none
  deriving DecidableEq, Repr

namespace Failure

/-- A value that had to be there is absent. -/
def missing (path : Path) : Failure :=
  { path, kind := .missing, message := "missing", got := some "undefined" }

def withExpected (failure : Failure) (expected : String) : Failure :=
  { failure with expected := some expected }

def withGot (failure : Failure) (got : String) : Failure :=
  { failure with got := some got }

def code (failure : Failure) : String :=
  failure.kind.code

/-- The same failure of a document found at `base`. -/
def under (base : Path) (failure : Failure) : Failure :=
  { failure with path := base ++ failure.path }

/-- One line per segment, each a level deeper than the one above. -/
def outline (indent : String) (path : Path) : List String :=
  path.segments.mapIdx fun level segment =>
    String.join (List.replicate level indent) ++ segment.text

/-- The outline of the path, an empty line and the message; at the root the
message alone. -/
def render (failure : Failure) (indent : String) : String :=
  if failure.path.isRoot then failure.message
  else
    String.intercalate "\n" (outline indent failure.path) ++ "\n\n" ++ failure.message

/-- A failure as text is its rendering with two spaces a level. -/
def text (failure : Failure) : String :=
  failure.render "  "

example :
    (missing ((Path.root.field "items").index 0)).text =
      "items\n  [ 0 ]\n\nmissing" := by
  decide

example : (missing .root).text = "missing" := by decide

@[simp] theorem under_root (failure : Failure) : failure.under .root = failure := rfl

@[simp] theorem length_outline (indent : String) (path : Path) :
    (outline indent path).length = path.length := by
  simp [outline, Path.length]

end Failure

/-! ## The causes of a failure -/

/-- How a value, at whatever position, differs from what was asked for. -/
inductive Mismatch where
  /-- nothing is there -/
  | missing
  /-- a value of another type than the primitive kind asked for -/
  | wrongType (expected : Primitive) (got : DynType)
  /-- a value that is not the container asked for -/
  | wrongShape (expected : Container) (got : DynType)
  /-- a discriminator that names none of the members -/
  | unknownVariant (known : List String) (tag : String)
  /-- a discriminator that names another member -/
  | wrongTag (expected tag : String)
  deriving DecidableEq, Repr

namespace Mismatch

def kind : Mismatch → FailureKind
  | missing => .missing
  | wrongType _ _ => .typeMismatch
  | wrongShape _ _ => .shapeMismatch
  | unknownVariant _ _ => .unknownVariant
  | wrongTag _ _ => .discriminatorMismatch

/-- What was asked for; of an absent value nothing is said. -/
def expected : Mismatch → Option String
  | missing => none
  | wrongType kind _ => some kind.name
  | wrongShape shape _ => some shape.name
  | unknownVariant known _ => some (String.intercalate " | " known)
  | wrongTag value _ => some value

/-- What was found instead. -/
def got : Mismatch → String
  | missing => "undefined"
  | wrongType _ type => type.name
  | wrongShape _ type => type.name
  | unknownVariant _ tag => tag
  | wrongTag _ tag => tag

def message : Mismatch → String
  | missing => "missing"
  | wrongType kind type => "expected a " ++ kind.name ++ ", got " ++ type.name
  | wrongShape shape type => "expected an " ++ shape.name ++ ", got " ++ type.name
  | unknownVariant known tag =>
      "expected one of " ++ String.intercalate " | " known ++ ", got " ++ tag
  | wrongTag value tag => "expected " ++ value ++ ", got " ++ tag

/-- The failure that reports a mismatch found at `path`. -/
def failureAt (mismatch : Mismatch) (path : Path) : Failure where
  path := path
  kind := mismatch.kind
  message := mismatch.message
  expected := mismatch.expected
  got := some mismatch.got

example :
    (wrongType .undefined (.primitive .null)).message =
      "expected a undefined, got null" := by
  decide

example : (unknownVariant ["circle", "square"] "line").message =
    "expected one of circle | square, got line" := by decide

@[simp] theorem missing_failureAt (path : Path) :
    missing.failureAt path = Failure.missing path := rfl

@[simp] theorem under_failureAt (mismatch : Mismatch) (base path : Path) :
    (mismatch.failureAt path).under base = mismatch.failureAt (base ++ path) := rfl

end Mismatch

end JsonShape
