import JsonShape.Proofs.Descent
import JsonShape.Value.Navigation

/-!
# Evidence — what a failure says is there to see

A failure's path, read from where judging began, leads to what the failure
is about: to nothing where something had to be, to a value of the wrong type,
or to a string that is no tag. `Schema.Fails` goes down the schema and the
document in step, so the claim is shown where a descent ends and carried up
one segment at a time.
-/

namespace JsonShape

/-- Nothing stands at the end of `below`: either nothing was given at all, or
`below` ends in a field that the object above it does not have. -/
def Value.AbsentAt (value? : Option Value) (below : List Segment) : Prop :=
  (below = [] ∧ value? = none) ∨
    ∃ above name entries, below = above ++ [.field name] ∧
      Value.follow value? above = some (.object entries) ∧ name ∉ Entries.keys entries

/-- The string `text` stands at the end of `below`, in a field. -/
def Value.TextAt (value? : Option Value) (below : List Segment) (text : String) :
    Prop :=
  (∃ above name, below = above ++ [.field name]) ∧
    Value.follow value? below = some (.string text)

/-- The word for what a value is. -/
inductive Value.HasTypeWord : Value → String → Prop
  | null : HasTypeWord .null "null"
  | boolean (value : Bool) : HasTypeWord (.boolean value) "boolean"
  | number (mantissa : Int) (scale : Nat) :
      HasTypeWord (.number mantissa scale) "number"
  | string (text : String) : HasTypeWord (.string text) "string"
  | array (items : List Value) : HasTypeWord (.array items) "array"
  | object (entries : List (String × Value)) :
      HasTypeWord (.object entries) "object"

/-- What the failure says is so at the end of `below`. -/
def Failure.Evident (failure : Failure) (value? : Option Value)
    (below : List Segment) : Prop :=
  match failure.kind with
  | .missing => Value.AbsentAt value? below
  | .typeMismatch | .shapeMismatch =>
      ∃ value word expected, Value.follow value? below = some value ∧
        value.HasTypeWord word ∧ failure.got = some word ∧
        failure.expected = some expected ∧ expected ≠ word
  | .unknownVariant => ∃ text, Value.TextAt value? below text ∧ failure.got = some text
  | .discriminatorMismatch =>
      ∃ text expected, Value.TextAt value? below text ∧ failure.got = some text ∧
        failure.expected = some expected ∧ expected ≠ text

/-! ## One segment further up -/

theorem Value.AbsentAt.item {items : List Value} {position : Nat} {item : Value}
    {below : List Segment} (hitem : items[position]? = some item)
    (h : Value.AbsentAt (some item) below) :
    Value.AbsentAt (some (.array items)) (.index position :: below) := by
  rcases h with ⟨_, hnone⟩ | ⟨above, name, entries, hbelow, hfollow, hname⟩
  · cases hnone
  · refine .inr
      ⟨.index position :: above, name, entries, by rw [hbelow]; rfl, ?_, hname⟩
    rw [Value.follow_cons, Value.step, hitem]
    exact hfollow

theorem Value.AbsentAt.field {entries : List (String × Value)} {name : String}
    {below : List Segment} (h : Value.AbsentAt (entries.lookup name) below) :
    Value.AbsentAt (some (.object entries)) (.field name :: below) := by
  rcases h with ⟨rfl, hnone⟩ | ⟨above, last, inner, hbelow, hfollow, hlast⟩
  · -- the step itself ends at nothing: this is the object without the key
    exact .inr ⟨[], name, entries, rfl, rfl, Entries.lookup_eq_none_iff.mp hnone⟩
  · exact .inr ⟨.field name :: above, last, inner, by rw [hbelow]; rfl, hfollow, hlast⟩

theorem Value.TextAt.above {value? : Option Value} {segment : Segment}
    {below : List Segment} {text : String}
    (h : Value.TextAt (Value.step value? segment) below text) :
    Value.TextAt value? (segment :: below) text := by
  obtain ⟨⟨above, name, hbelow⟩, hfollow⟩ := h
  exact ⟨⟨segment :: above, name, by rw [hbelow]; rfl⟩, hfollow⟩

/-- Evidence below a step is evidence from above it, if an absence is. -/
theorem Failure.Evident.above {failure : Failure} {value? : Option Value}
    {segment : Segment} {below : List Segment}
    (habsent : Value.AbsentAt (Value.step value? segment) below →
      Value.AbsentAt value? (segment :: below))
    (h : failure.Evident (Value.step value? segment) below) :
    failure.Evident value? (segment :: below) := by
  unfold Failure.Evident at h ⊢
  cases hkind : failure.kind with
  | missing =>
      rw [hkind] at h
      exact habsent h
  | typeMismatch | shapeMismatch =>
      rw [hkind] at h
      exact h
  | unknownVariant =>
      rw [hkind] at h
      obtain ⟨text, htext, hgot⟩ := h
      exact ⟨text, htext.above, hgot⟩
  | discriminatorMismatch =>
      rw [hkind] at h
      obtain ⟨text, expected, htext, hrest⟩ := h
      exact ⟨text, expected, htext.above, hrest⟩

/-! ## Where a descent ends -/

/-- The name of a value's type is the word for it. -/
theorem Value.hasTypeWord (value : Value) : value.HasTypeWord value.dynType.name := by
  cases value <;> constructor

/-- Where a value is not of the type that was expected, the words for its own type
and for the expected one show that. -/
theorem Value.shows_other_type {value? : Option Value} {below : List Segment}
    {value : Value} {expected : DynType}
    (hfollow : Value.follow value? below = some value) (htype : value.dynType ≠ expected) :
    ∃ found word other, Value.follow value? below = some found ∧
      found.HasTypeWord word ∧ some value.dynType.name = some word ∧
      some expected.name = some other ∧ other ≠ word := by
  refine ⟨value, _, _, hfollow, value.hasTypeWord, rfl, rfl, fun hname => ?_⟩
  exact htype (DynType.name_inj hname.symm)

/-- A tag that a layer refuses is to be seen in the field it reads. -/
theorem Layer.Refuses.evident {l : Layer} {entries : List (String × Value)} {d : String}
    {m : Mismatch} (h : l.Refuses entries d m) (path : Path) :
    (m.failureAt path).Evident (some (.object entries)) [.field d] := by
  have hfield : ∃ above name, [Segment.field d] = above ++ [.field name] := ⟨[], d, rfl⟩
  cases h with
  | absent _ hnone => exact Value.AbsentAt.field (.inl ⟨rfl, hnone⟩)
  | notText _ hfound htype =>
      have hfollow : Value.follow (some (.object entries)) [.field d] = some _ := hfound
      exact Value.shows_other_type hfollow htype
  | unknown htag _ => exact ⟨_, ⟨hfield, htag⟩, rfl⟩
  | other htag hne => exact ⟨_, _, ⟨hfield, htag⟩, rfl, rfl, Ne.symm hne⟩

theorem Schema.Fails.evident {s : Schema} {value? : Option Value} {below : List Segment}
    {m : Mismatch} (h : s.Fails value? below m) (path : Path) :
    (m.failureAt path).Evident value? below := by
  induction h with
  | absent _ => exact .inl ⟨rfl, rfl⟩
  | notKind htype | notArray htype | notObject htype =>
      exact Value.shows_other_type rfl htype
  | @item element items position item below m hitem _ _ ih =>
      have hstep : Value.step (some (.array items)) (.index position) = some item :=
        hitem
      refine Failure.Evident.above ?_ (hstep ▸ ih)
      rw [hstep]
      exact Value.AbsentAt.item hitem
  | tag _ hrefuses => exact hrefuses.evident path
  | field _ _ _ _ ih => exact Failure.Evident.above Value.AbsentAt.field ih

/-- Whatever failure validation reports, its path goes on from where judging
began to a position of the document at which what the failure says is so. -/
theorem Schema.failure_is_evident {s : Schema} {value? : Option Value} {path : Path}
    {e : Failure} (h : s.check value? path = .error e) :
    ∃ below, e.path = path ++ ⟨below⟩ ∧ e.Evident value? below := by
  obtain ⟨below, m, hfails, rfl⟩ := Schema.fails_of_check h
  exact ⟨below, rfl, hfails.evident _⟩

/-- The document is refused with the failure, and the failure is evident in it. -/
def Refusal.IsEvident (r : Refusal) : Prop :=
  r.schema.check (some r.document) .root = .error r.failure ∧
    ∃ below, r.failure.path = .root ++ ⟨below⟩ ∧
      r.failure.Evident (some r.document) below

theorem Schema.refused_drawings_are_evident :
    (Refusal.ofKind .missing).IsEvident ∧ (Refusal.ofKind .typeMismatch).IsEvident ∧
      (Refusal.ofKind .shapeMismatch).IsEvident ∧
      (Refusal.ofKind .unknownVariant).IsEvident ∧
      (Refusal.ofKind .discriminatorMismatch).IsEvident := by
  have hevident : ∀ kind, (Refusal.ofKind kind).IsEvident := fun kind =>
    ⟨Refusal.check_ofKind kind, failure_is_evident (Refusal.check_ofKind kind)⟩
  exact ⟨hevident _, hevident _, hevident _, hevident _, hevident _⟩

end JsonShape
