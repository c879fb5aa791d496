/-!
# Path — where in a document

A path leads from the root of a document to one of its positions, one
segment a step: the name of an object's field or the index of an array's
element. Its text is the segments one after another; `Path.text_append`
says that nothing is put between them.
-/

namespace JsonShape

/-- One step down into a document. -/
inductive Segment where
  | field (name : String)
  | index (position : Nat)
  deriving DecidableEq, Repr

namespace Segment

/-- A segment on its own: a field is its name, an index stands in spaced
brackets. -/
def text : Segment → String
  | field name => name
  | index position => "[ " ++ Nat.repr position ++ " ]"

/-- A segment within a path, where a field is led in by a dot. -/
def pathText : Segment → String
  | field name => "." ++ name
  | index position => (index position).text

theorem toList_text_index (position : Nat) :
    (index position).text.toList =
      '[' :: ' ' :: (Nat.toDigits 10 position ++ [' ', ']']) := by
  simp [text]

/-- After the opening bracket an index is written with these characters. -/
theorem mem_text_index_tail {position : Nat} {c : Char}
    (h : c ∈ ' ' :: (Nat.toDigits 10 position ++ [' ', ']'])) :
    c = ' ' ∨ c = ']' ∨ c.isDigit = true := by
  simp only [List.mem_cons, List.mem_append, List.not_mem_nil, or_false] at h
  rcases h with hblank | hdigit | hblank | hbracket
  · exact .inl hblank
  · exact .inr (.inr (Nat.isDigit_of_mem_toDigits (by decide) (by decide) hdigit))
  · exact .inl hblank
  · exact .inr (.inl hbracket)

end Segment

/-- A position in a document, from the root down. -/
structure Path where
  segments : List Segment
  deriving DecidableEq, Repr

namespace Path

/-- The position of the whole document. -/
def root : Path := ⟨[]⟩

/-- One segment further down. -/
def push (path : Path) (segment : Segment) : Path :=
  ⟨path.segments ++ [segment]⟩

def field (path : Path) (name : String) : Path :=
  path.push (.field name)

def index (path : Path) (position : Nat) : Path :=
  path.push (.index position)

def length (path : Path) : Nat :=
  path.segments.length

def isRoot (path : Path) : Bool :=
  path.segments.isEmpty

def last? (path : Path) : Option Segment :=
  path.segments.getLast?

/-- One segment further up; the root has no parent. -/
def parent? (path : Path) : Option Path :=
  if path.isRoot then none else some ⟨path.segments.dropLast⟩

/-- The position `below` of the document found at `path`. -/
def append (path below : Path) : Path :=
  ⟨path.segments ++ below.segments⟩

instance : Append Path := ⟨append⟩

/-- The path on one line: `.` before a field's name, an index in spaced
brackets, and nothing for the root. -/
def text (path : Path) : String :=
  String.join (path.segments.map Segment.pathText)

example : ((root.field "items").index 0).text = ".items[ 0 ]" := by decide

@[simp] theorem segments_root : root.segments = [] := rfl

@[simp] theorem segments_push (path : Path) (segment : Segment) :
    (path.push segment).segments = path.segments ++ [segment] := rfl

@[simp] theorem segments_field (path : Path) (name : String) :
    (path.field name).segments = path.segments ++ [.field name] := rfl

@[simp] theorem segments_index (path : Path) (position : Nat) :
    (path.index position).segments = path.segments ++ [.index position] := rfl

@[simp] theorem segments_append (path below : Path) :
    (path ++ below).segments = path.segments ++ below.segments := rfl

theorem ext_segments {p q : Path} (h : p.segments = q.segments) : p = q := by
  cases p
  cases q
  exact congrArg _ h

@[simp] theorem root_append (path : Path) : root ++ path = path := rfl

@[simp] theorem append_root (path : Path) : path ++ root = path :=
  ext_segments (List.append_nil _)

/-- Stepping down is the same below any starting point. -/
theorem append_push (path below : Path) (segment : Segment) :
    path ++ below.push segment = (path ++ below).push segment :=
  ext_segments (List.append_assoc ..).symm

theorem append_field (path below : Path) (name : String) :
    path ++ below.field name = (path ++ below).field name :=
  append_push ..

theorem append_index (path below : Path) (position : Nat) :
    path ++ below.index position = (path ++ below).index position :=
  append_push ..

/-- What lies below a step down lies below where the step was taken. -/
theorem push_append (path : Path) (segment : Segment) (below : List Segment) :
    path.push segment ++ ⟨below⟩ = path ++ ⟨segment :: below⟩ :=
  ext_segments (by simp)

/-- A step down is undone by a step up. -/
@[simp] theorem parent?_push (path : Path) (segment : Segment) :
    (path.push segment).parent? = some path := by
  have h : (path.push segment).isRoot = false := by simp [isRoot, push]
  rw [parent?, h, if_neg Bool.false_ne_true]
  exact congrArg some (ext_segments (by simp))

@[simp] theorem last?_push (path : Path) (segment : Segment) :
    (path.push segment).last? = some segment := by
  simp [last?]

theorem isRoot_iff {path : Path} : path.isRoot = true ↔ path = root := by
  refine ⟨fun h => ext_segments (List.isEmpty_iff.mp h), fun h => ?_⟩
  rw [h]
  rfl

/-- The text of a longer path begins with the text of the shorter one. -/
theorem text_append (path below : Path) :
    (path ++ below).text = path.text ++ below.text := by
  apply String.toList_inj.mp
  simp [text]

end Path

end JsonShape
