import JsonShape.Entries
import JsonShape.Path.Basic
import JsonShape.Value.Basic

/-!
# Value — following and editing a position

`Value.follow` reads what stands at the end of a list of segments, and
`Value.edit` puts something else there. An entry of an object may be put,
replaced or taken out; an element of an array may be replaced.
-/

namespace JsonShape

namespace Entries

variable {α : Type}

/-- Puts a value under `key`, or takes out what is there. -/
def assign (entries : Entries α) (key : String) : Option α → Entries α
  | some value => put entries key value
  | none => erase entries key

theorem lookup_erase_self (entries : Entries α) (key : String) :
    (entries.erase key).lookup key = none := by
  rw [lookup_eq_none_iff]
  intro h
  obtain ⟨e, he, hk⟩ := List.mem_map.mp h
  simp [erase, hk] at he

theorem lookup_erase_ne (entries : Entries α) {key other : String} (h : other ≠ key) :
    (entries.erase key).lookup other = entries.lookup other := by
  induction entries with
  | nil => rfl
  | cons e rest ih =>
      obtain ⟨k, v⟩ := e
      by_cases hk : k = key
      · subst hk
        have : erase ((k, v) :: rest) k = erase rest k := by simp [erase]
        rw [this, ih, lookup_cons_ne (Ne.symm h)]
      · have : erase ((k, v) :: rest) key = (k, v) :: erase rest key := by
          simp [erase, hk]
        rw [this]
        by_cases ho : k = other
        · subst ho
          rw [List.lookup_cons_self, List.lookup_cons_self]
        · rw [lookup_cons_ne ho, lookup_cons_ne ho, ih]

theorem lookup_assign_self (entries : Entries α) (key : String) (value? : Option α) :
    (entries.assign key value?).lookup key = value? := by
  cases value? with
  | none => exact lookup_erase_self ..
  | some value => exact lookup_put_self ..

theorem lookup_assign_ne (entries : Entries α) {key other : String}
    (h : other ≠ key) (value? : Option α) :
    (entries.assign key value?).lookup other = entries.lookup other := by
  cases value? with
  | none => exact lookup_erase_ne _ h
  | some value => exact lookup_put_ne _ h _

end Entries

namespace Value

/-- One step down: a field of an object, an element of an array, and nothing
anywhere else. -/
def step : Option Value → Segment → Option Value
  | some (.object entries), .field name => entries.lookup name
  | some (.array items), .index position => items[position]?
  | _, _ => none

/-- What stands at the end of the segments, if anything does. -/
def follow (value? : Option Value) (segments : List Segment) : Option Value :=
  segments.foldl step value?

/-- The document with something else at the end of the segments. What cannot
be reached, or is an element to be taken out, stays as it is. -/
def edit : Option Value → List Segment → Option Value → Option Value
  | _, [], new? => new?
  | some (.object entries), .field name :: rest, new? =>
      some (.object
        (Entries.assign entries name (edit (entries.lookup name) rest new?)))
  | some (.array items), .index position :: rest, new? =>
      match edit items[position]? rest new? with
      | some item => some (.array (items.set position item))
      | none => some (.array items)
  | value?, _ :: _, _ => value?

@[simp] theorem follow_nil (value? : Option Value) : follow value? [] = value? := rfl

@[simp] theorem follow_cons (value? : Option Value) (segment : Segment)
    (rest : List Segment) :
    follow value? (segment :: rest) = follow (step value? segment) rest := rfl

end Value

end JsonShape
