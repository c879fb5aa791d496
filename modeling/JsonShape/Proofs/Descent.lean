import JsonShape.Proofs.Acceptance
import JsonShape.Proofs.Layering

/-!
# Descent — the way down to a failure

`Schema.Fails s v q m` tells, without running the check, how judging `v` by
`s` comes to fail: it goes down along `q`, everything it passes on the way
conforms, and at the end of `q` stands the mismatch `m`. Every failure that
validation reports is one of these, at its own path.
-/

namespace JsonShape

/-- `l.Refuses entries d m`: the field `d`, which the layer `l` reads as its
tag, does not hold a tag for it. -/
inductive Layer.Refuses : Layer → List (String × Value) → String → Mismatch → Prop
  | absent {l : Layer} {entries : List (String × Value)} {d : String} :
      l.discriminator? = some d → entries.lookup d = none →
      Layer.Refuses l entries d .missing
  | notText {l : Layer} {entries : List (String × Value)} {d : String} {found : Value} :
      l.discriminator? = some d → entries.lookup d = some found →
      found.dynType ≠ .primitive .string →
      Layer.Refuses l entries d (.wrongType .string found.dynType)
  | unknown {u : Union} {entries : List (String × Value)} {tag : String} :
      entries.lookup u.discriminator = some (.string tag) → u.get? tag = none →
      Layer.Refuses (.union u) entries u.discriminator
        (.unknownVariant u.memberKeys tag)
  | other {m : Member} {entries : List (String × Value)} {tag : String} :
      entries.lookup m.discriminator = some (.string tag) → tag ≠ m.value →
      Layer.Refuses (.member m) entries m.discriminator (.wrongTag m.value tag)

/-- `s.Fails v q m`: going down `q` from `v`, past elements of smaller index
and fields declared earlier that all conform, there is the mismatch `m`. -/
inductive Schema.Fails : Schema → Option Value → List Segment → Mismatch → Prop
  | absent {s : Schema} : s ≠ .primitive .undefined → Schema.Fails s none [] .missing
  | notKind {kind : Primitive} {value : Value} : value.dynType ≠ .primitive kind →
      Schema.Fails (.primitive kind) (some value) [] (.wrongType kind value.dynType)
  | notArray {element : Schema} {value : Value} : value.dynType ≠ .container .array →
      Schema.Fails (.array element) (some value) [] (.wrongShape .array value.dynType)
  | notObject {layer : Layer} {value : Value} : value.dynType ≠ .container .object →
      Schema.Fails (.object layer) (some value) [] (.wrongShape .object value.dynType)
  | item {element : Schema} {items : List Value} {position : Nat} {item : Value}
      {below : List Segment} {m : Mismatch} :
      items[position]? = some item →
      (∀ i x, i < position → items[i]? = some x → element.Admits (some x)) →
      Schema.Fails element (some item) below m →
      Schema.Fails (.array element) (some (.array items)) (.index position :: below) m
  | tag {layer l : Layer} {entries : List (String × Value)} {d : String}
      {m : Mismatch} :
      l ∈ layer.applied entries → l.Refuses entries d m →
      Schema.Fails (.object layer) (some (.object entries)) [.field d] m
  | field {layer : Layer} {entries : List (String × Value)} {r : Record}
      {before after : List (String × Schema)} {name : String} {s : Schema}
      {below : List Segment} {m : Mismatch} :
      .record r ∈ layer.applied entries → r.fields = before ++ (name, s) :: after →
      (∀ n t, (n, t) ∈ before → t.Admits (entries.lookup n)) →
      Schema.Fails s (entries.lookup name) below m →
      Schema.Fails (.object layer) (some (.object entries)) (.field name :: below) m

/-- An object that fails a layer fails every layer above it. -/
theorem Schema.Fails.above {inner outer : Layer} {entries : List (String × Value)}
    {below : List Segment} {m : Mismatch}
    (h : (Schema.object inner).Fails (some (.object entries)) below m)
    (hsub : ∀ l ∈ inner.applied entries, l ∈ outer.applied entries) :
    (Schema.object outer).Fails (some (.object entries)) below m := by
  cases h with
  | notObject h => exact absurd rfl h
  | tag hl hrefuses => exact .tag (hsub _ hl) hrefuses
  | field hr hsplit hbefore hfails => exact .field (hsub _ hr) hsplit hbefore hfails

/-- What reading a tag reports is that the layer refuses the object. -/
theorem Layer.refuses_of_readTag {l : Layer} {entries : List (String × Value)}
    {d : String} {path : Path} {e : Failure} (hd : l.discriminator? = some d)
    (h : readTag entries d path = .error e) :
    ∃ m, l.Refuses entries d m ∧ e = m.failureAt (path.field d) := by
  rcases readTag_eq_error_iff.mp h with ⟨habsent, he⟩ | ⟨found, hfound, htype, he⟩
  · exact ⟨.missing, .absent hd habsent, he⟩
  · exact ⟨.wrongType .string found.dynType, .notText hd hfound htype, he⟩

/-! ## Every failure is such a descent -/

/-- The failure `e` is what a descent of `s` from the value at `path` ends in. -/
def Schema.Explains (s : Schema) (value? : Option Value) (path : Path) (e : Failure) :
    Prop :=
  ∃ below m, s.Fails value? below m ∧ e = m.failureAt (path ++ ⟨below⟩)

theorem Schema.explains_here {s : Schema} {value? : Option Value} {path : Path}
    {m : Mismatch} (h : s.Fails value? [] m) :
    s.Explains value? path (m.failureAt path) :=
  ⟨[], m, h, by rw [← Path.root, Path.append_root]⟩

theorem Schema.explains_tag {layer l : Layer} {entries : List (String × Value)}
    {d : String} {path : Path} {m : Mismatch} (hl : l ∈ layer.applied entries)
    (h : l.Refuses entries d m) :
    (Schema.object layer).Explains (some (.object entries)) path
      (m.failureAt (path.field d)) :=
  ⟨[.field d], m, .tag hl h, rfl⟩

theorem Schema.Explains.above {inner outer : Layer} {entries : List (String × Value)}
    {path : Path} {e : Failure}
    (h : (Schema.object inner).Explains (some (.object entries)) path e)
    (hsub : ∀ l ∈ inner.applied entries, l ∈ outer.applied entries) :
    (Schema.object outer).Explains (some (.object entries)) path e := by
  obtain ⟨below, m, hfails, he⟩ := h
  exact ⟨below, m, hfails.above hsub, he⟩

theorem explains_failure :
    LayeredCases (fun s => ∀ value? path e, s.check value? path = .error e →
        s.Explains value? path e)
      (fun l => ∀ entries path e, l.check entries path = .error e →
        (Schema.object l).Explains (some (.object entries)) path e) where
  primitive kind value? path e h := by
    rw [Schema.check_primitive, Primitive.check_eq_error_iff] at h
    rcases h with ⟨rfl, hkind, rfl⟩ | ⟨value, rfl, htype, rfl⟩
    · refine Schema.explains_here (.absent ?_)
      intro hs
      exact hkind (Schema.primitive.inj hs)
    · exact Schema.explains_here (.notKind htype)
  array element ih value? path e h := by
    rw [Schema.check_array, bind_eq_error_iff, requireArray_eq_error_iff] at h
    rcases h with (⟨rfl, rfl⟩ | ⟨value, rfl, htype, rfl⟩) | ⟨items, hitems, h⟩
    · exact Schema.explains_here (.absent nofun)
    · exact Schema.explains_here (.notArray htype)
    · rw [requireArray_eq_ok_iff] at hitems
      subst hitems
      obtain ⟨i, item, hi, hfail, hbefore⟩ := checkItems_eq_error h
      obtain ⟨below, m, hfails, rfl⟩ := ih _ _ _ hfail
      refine ⟨.index i :: below, m, .item hi ?_ hfails, ?_⟩
      · intro j x hj hx
        exact Schema.admits_of_check (hbefore j x hj hx)
      · rw [Nat.zero_add, Path.index, Path.push_append]
  object layer ih value? path e h := by
    rw [Schema.check_object, bind_eq_error_iff, requireObject_eq_error_iff] at h
    rcases h with (⟨rfl, rfl⟩ | ⟨value, rfl, htype, rfl⟩) | ⟨entries, hentries, h⟩
    · exact Schema.explains_here (.absent nofun)
    · exact Schema.explains_here (.notObject htype)
    · rw [requireObject_eq_ok_iff] at hentries
      subst hentries
      exact ih entries path e h
  record r ih entries path e h := by
    rw [Layer.check_record] at h
    obtain ⟨before, name, s, after, hsplit, hfail, hbefore⟩ :=
      Record.checkFields_eq_error h
    have hm : (name, s) ∈ r.fields := by simp [hsplit]
    obtain ⟨below, m, hfails, rfl⟩ := ih name s hm _ _ _ hfail
    refine ⟨.field name :: below, m,
      .field (Layer.self_mem_applied _ _) hsplit ?_ hfails, ?_⟩
    · intro n t hm
      exact Schema.admits_of_check (hbefore n t hm)
    · rw [Path.field, Path.push_append]
  union u ih entries path e h := by
    rw [Layer.check_union, bind_eq_error_iff] at h
    rcases h with h | ⟨tag, htag, h⟩
    · obtain ⟨m, hrefuses, rfl⟩ := Layer.refuses_of_readTag (l := .union u) rfl h
      exact Schema.explains_tag (Layer.self_mem_applied _ _) hrefuses
    · rw [readTag_eq_ok_iff] at htag
      cases hget : u.get? tag with
      | none =>
          rw [hget] at h
          cases h
          exact Schema.explains_tag (Layer.self_mem_applied _ _) (.unknown htag hget)
      | some m =>
          rw [hget] at h
          -- the failure is the member's, and its layers are among the union's
          have hm : (tag, m) ∈ u.members := Entries.mem_of_lookup hget
          refine ((ih tag m hm).2 entries path e h).above fun l hl => ?_
          rw [Layer.applied_union_of_get? htag hget]
          exact List.mem_cons_of_mem _ hl
  member m ih entries path e h := by
    rw [Layer.check_member, Member.check_eq, bind_eq_error_iff] at h
    rcases h with h | ⟨tag, htag, h⟩
    · obtain ⟨mismatch, hrefuses, rfl⟩ :=
        Layer.refuses_of_readTag (l := .member m) rfl h
      exact Schema.explains_tag (Layer.self_mem_applied _ _) hrefuses
    · rw [readTag_eq_ok_iff] at htag
      by_cases hv : tag = m.value
      · rw [if_pos hv] at h
        subst hv
        refine (ih entries path e h).above fun l hl => ?_
        rw [Layer.applied_member_of_tag htag]
        exact List.mem_cons_of_mem _ hl
      · rw [if_neg hv] at h
        cases h
        exact Schema.explains_tag (Layer.self_mem_applied _ _) (.other htag hv)

theorem Schema.fails_of_check {s : Schema} {value? : Option Value} {path : Path}
    {e : Failure} (h : s.check value? path = .error e) :
    ∃ below m, s.Fails value? below m ∧ e = m.failureAt (path ++ ⟨below⟩) :=
  Schema.of_cases explains_failure s value? path e h

/-! ## One refusal of each kind -/

/-- A line only, described as if it were dashed. -/
def Schema.line : Schema :=
  .object (.member (.make "kind" (.string "line") (.record .dashes)))

/-- A document that a schema refuses, and what is said of it in full. -/
structure Refusal where
  schema : Schema
  document : Value
  failure : Failure

/-- A drawing that is refused, for each kind of failure: a line without a style, a
circle as wide as a word, a list, a line in a style that no line has, and a circle
where there should be a line. -/
def Refusal.ofKind : FailureKind → Refusal
  | .missing =>
      ⟨.drawing, .object [("kind", .string "line")],
        ⟨Path.root.field "style", .missing, "missing", none, some "undefined"⟩⟩
  | .typeMismatch =>
      ⟨.drawing, .object [("kind", .string "circle"), ("radius", .string "wide")],
        ⟨Path.root.field "radius", .typeMismatch, "expected a number, got string",
          some "number", some "string"⟩⟩
  | .shapeMismatch =>
      ⟨.drawing, .array [],
        ⟨.root, .shapeMismatch, "expected an object, got array",
          some "object", some "array"⟩⟩
  | .unknownVariant =>
      ⟨.drawing, .object [("kind", .string "line"), ("style", .string "dotted")],
        ⟨Path.root.field "style", .unknownVariant, "expected one of dashed, got dotted",
          some "dashed", some "dotted"⟩⟩
  | .discriminatorMismatch =>
      ⟨.line, .object [("kind", .string "circle")],
        ⟨Path.root.field "kind", .discriminatorMismatch, "expected line, got circle",
          some "line", some "circle"⟩⟩

theorem Refusal.check_ofKind (kind : FailureKind) :
    (ofKind kind).schema.check (some (ofKind kind).document) .root =
      .error (ofKind kind).failure := by
  cases kind <;> decide

end JsonShape
