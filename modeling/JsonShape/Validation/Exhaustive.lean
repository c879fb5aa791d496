import JsonShape.Failure.Basic
import JsonShape.Schema.Basic

/-!
# Exhaustive — every mismatch of a document

Validation stops at the first mismatch. Here all of them are listed, in the
order in which validation would come to them: the fields of a record in
declaration order, the elements of an array from the first. Where nothing
further can be judged, because there is no object, no tag or no member for
the tag, that one mismatch is the list.
-/

namespace JsonShape

mutual

/-- All mismatches of a possibly absent value found at `path`. -/
def Schema.mismatches : Schema → Option Value → Path → List Failure
  | .primitive .undefined, none, _ => []
  | .primitive _, none, path => [Mismatch.missing.failureAt path]
  | .primitive kind, some value, path =>
      if value.dynType = .primitive kind then []
      else [(Mismatch.wrongType kind value.dynType).failureAt path]
  | .array _, none, path => [Mismatch.missing.failureAt path]
  | .array element, some (.array items), path =>
      items.zipIdx.flatMap fun item =>
        element.mismatches (some item.1) (path.index item.2)
  | .array _, some value, path =>
      [(Mismatch.wrongShape .array value.dynType).failureAt path]
  | .object _, none, path => [Mismatch.missing.failureAt path]
  | .object layer, some (.object entries), path => layer.mismatches entries path
  | .object _, some value, path =>
      [(Mismatch.wrongShape .object value.dynType).failureAt path]

/-- All mismatches of the object found at `path`. -/
def Layer.mismatches : Layer → List (String × Value) → Path → List Failure
  | .record ⟨fields⟩, entries, path => Record.fieldMismatches fields entries path
  | .union ⟨discriminator, members⟩, entries, path =>
      match entries.lookup discriminator with
      | none => [Mismatch.missing.failureAt (path.field discriminator)]
      | some (.string tag) =>
          (Union.selectedMismatches members tag entries path).getD
            [(Mismatch.unknownVariant (Entries.keys members) tag).failureAt
              (path.field discriminator)]
      | some value =>
          [(Mismatch.wrongType .string value.dynType).failureAt
            (path.field discriminator)]
  | .member m, entries, path => m.mismatches entries path

def Member.mismatches : Member → List (String × Value) → Path → List Failure
  | ⟨discriminator, value, body⟩, entries, path =>
      match entries.lookup discriminator with
      | none => [Mismatch.missing.failureAt (path.field discriminator)]
      | some (.string tag) =>
          if tag = value then body.mismatches entries path
          else [(Mismatch.wrongTag value tag).failureAt (path.field discriminator)]
      | some found =>
          [(Mismatch.wrongType .string found.dynType).failureAt
            (path.field discriminator)]

/-- The mismatches of all declared fields, one field after another. -/
def Record.fieldMismatches :
    List (String × Schema) → List (String × Value) → Path → List Failure
  | [], _, _ => []
  | (name, schema) :: rest, entries, path =>
      schema.mismatches (entries.lookup name) (path.field name) ++
        Record.fieldMismatches rest entries path

/-- The mismatches with the member of that key, if there is one. -/
def Union.selectedMismatches :
    List (String × Member) → String → List (String × Value) → Path →
      Option (List Failure)
  | [], _, _, _ => none
  | (key, m) :: rest, tag, entries, path =>
      if key = tag then some (m.mismatches entries path)
      else Union.selectedMismatches rest tag entries path

end

theorem Union.selectedMismatches_eq (members : List (String × Member)) (tag : String)
    (entries : List (String × Value)) (path : Path) :
    Union.selectedMismatches members tag entries path =
      (members.lookup tag).map (·.mismatches entries path) := by
  induction members with
  | nil => rfl
  | cons e rest ih =>
      obtain ⟨key, m⟩ := e
      by_cases h : key = tag
      · subst h
        rw [Union.selectedMismatches, if_pos rfl, List.lookup_cons_self]
        rfl
      · rw [Union.selectedMismatches, if_neg h, Entries.lookup_cons_ne h, ih]

end JsonShape
