import JsonShape.Proofs.Building
import JsonShape.Proofs.Outcome
import JsonShape.Schema.Layers

/-!
# Agreement — unions whose members read the union's own tag

A union reads a tag and chooses a member by it, and the member reads a tag
again. Where both read the same field, the second reading finds what the first
one found, and a member stands under its own value; so the member's test cannot
fail and the union judges as the member's body does. Members that are made by
their union agree with it. Only a member that was made before, or that stands
on its own, can report that a tag names another member.
-/

namespace JsonShape

/-- Every member reads the field that the union reads. -/
def Union.Agreed (u : Union) : Prop :=
  ∀ key m, (key, m) ∈ u.members → m.discriminator = u.discriminator

/-! ## Members made by their union -/

theorem Union.agreed_on (discriminator : String) : (Union.on discriminator).Agreed := by
  intro key m hm
  simp at hm

theorem Union.Agreed.member {u : Union} (h : u.Agreed) (tag : Tag) (body : Layer) :
    (u.member tag body).Agreed := by
  intro key m hm
  rcases Entries.mem_put hm with he | hm
  · cases he
    rfl
  · exact h key m hm

/-- A union that makes all its members agrees with them. -/
theorem Union.agreed_ofAdditions (discriminator : String)
    {additions : List Union.Addition}
    (h : ∀ a ∈ additions, ∃ tag body, a = .member tag body) :
    (Union.ofAdditions discriminator additions).Agreed := by
  induction additions using List.reverseRecOn with
  | nil => exact Union.agreed_on discriminator
  | append_singleton before a ih =>
      obtain ⟨tag, body, rfl⟩ := h a (by simp)
      have hbefore := ih fun b hb => h b (by simp [hb])
      rw [Union.ofAdditions, Union.withAdditions, List.foldl_append]
      exact hbefore.member tag body

/-! ## Judging by the body -/

/-- The member that an agreed union chooses finds its own value in the field
that it reads, and passes the object on to its body. -/
theorem Layer.check_union_of_agreed {u : Union} (hu : (Layer.union u).WellFormed)
    (h : u.Agreed) {entries : List (String × Value)} {tag : String} {m : Member}
    (htag : entries.lookup u.discriminator = some (.string tag))
    (hget : u.get? tag = some m) (path : Path) :
    (Layer.union u).check entries path = m.body.check entries path := by
  have hm : (tag, m) ∈ u.members := Entries.mem_of_lookup hget
  have hread : readTag entries u.discriminator path = .ok tag :=
    readTag_eq_ok_iff.mpr htag
  rw [Layer.check_union, hread, ok_bind]
  simp only [hget]
  rw [Member.check_eq, h tag m hm, hread, ok_bind, if_pos (Union.key_eq_value hu hm)]

/-! ## Agreement at every depth -/

/-- No member on its own, and no union with a member that reads another field
than the union does. -/
def Layer.agrees : Layer → Bool
  | .record _ => true
  | .union u => u.members.all fun e => e.2.discriminator == u.discriminator
  | .member _ => false

theorem Layer.agrees_union_iff {u : Union} :
    (Layer.union u).agrees = true ↔ u.Agreed := by
  simp [Layer.agrees, Union.Agreed]

theorem Schema.agreed_iff {s : Schema} :
    s.Agreed ↔ ∀ l ∈ s.layers, l.agrees = true := by
  constructor
  · intro h l hl
    cases l with
    | record r => rfl
    | union u => exact Layer.agrees_union_iff.mpr (h.2 u hl)
    | member m => exact absurd hl (h.1 m)
  · intro h
    refine ⟨fun m hm => ?_, fun u hu => Layer.agrees_union_iff.mp (h _ hu)⟩
    simpa [Layer.agrees] using h _ hm

instance (s : Schema) : Decidable s.Agreed :=
  decidable_of_iff (s.layers.all Layer.agrees = true)
    (by rw [Schema.agreed_iff, List.all_eq_true])

/-- A part has no layers but those of the whole, and agrees if the whole does. -/
theorem Schema.Agreed.part {s t : Schema} (h : s.Agreed)
    (hsub : ∀ l ∈ t.layers, l ∈ s.layers) : t.Agreed := by
  rw [Schema.agreed_iff] at h ⊢
  intro l hl
  exact h l (hsub l hl)

theorem Schema.Agreed.field {r : Record} (h : (Schema.object (.record r)).Agreed)
    {name : String} {s : Schema} (hs : (name, s) ∈ r.fields) : s.Agreed :=
  h.part (Record.layers_of_mem hs)

theorem Schema.Agreed.body {u : Union} (h : (Schema.object (.union u)).Agreed)
    {key : String} {m : Member} (hm : (key, m) ∈ u.members) :
    (Schema.object m.body).Agreed :=
  h.part (Union.layers_of_mem hm)

/-! ## No tag of another member -/

/-- What reading a tag reports is that no string is there. -/
theorem readTag_kind {entries : List (String × Value)} {d : String} {path : Path}
    {e : Failure} (h : readTag entries d path = .error e) :
    e.kind ≠ .discriminatorMismatch := by
  rcases readTag_eq_error_iff.mp h with ⟨_, rfl⟩ | ⟨_, _, _, rfl⟩ <;> exact nofun

theorem never_wrong_tag :
    LayeredCases
      (fun s => s.WellFormed → s.Agreed → ∀ value? path e,
        s.check value? path = .error e → e.kind ≠ .discriminatorMismatch)
      (fun l => l.WellFormed → (Schema.object l).Agreed → ∀ entries path e,
        l.check entries path = .error e → e.kind ≠ .discriminatorMismatch) where
  primitive kind _ _ value? path e h := by
    rw [Schema.check_primitive, Primitive.check_eq_error_iff] at h
    rcases h with ⟨_, _, rfl⟩ | ⟨_, _, _, rfl⟩ <;> exact nofun
  array element ih hw ha value? path e h := by
    rw [Schema.check_array, bind_eq_error_iff, requireArray_eq_error_iff] at h
    rcases h with (⟨_, rfl⟩ | ⟨_, _, _, rfl⟩) | ⟨items, _, h⟩
    · exact nofun
    · exact nofun
    · obtain ⟨i, item, _, hfail, _⟩ := checkItems_eq_error h
      exact ih hw ha _ _ e hfail
  object layer ih hw ha value? path e h := by
    rw [Schema.check_object, bind_eq_error_iff, requireObject_eq_error_iff] at h
    rcases h with (⟨_, rfl⟩ | ⟨_, _, _, rfl⟩) | ⟨entries, _, h⟩
    · exact nofun
    · exact nofun
    · exact ih hw ha entries path e h
  record r ih hw ha entries path e h := by
    rw [Layer.check_record] at h
    obtain ⟨before, name, s, after, hsplit, hfail, _⟩ := Record.checkFields_eq_error h
    have hs : (name, s) ∈ r.fields := by simp [hsplit]
    exact ih name s hs (Record.wellFormed_of_mem hw hs) (ha.field hs) _ _ e hfail
  union u ih hw ha entries path e h := by
    cases hread : readTag entries u.discriminator path with
    | error e' =>
        rw [Layer.check_union, hread] at h
        cases h
        exact readTag_kind hread
    | ok tag =>
        cases hget : u.get? tag with
        | none =>
            rw [Layer.check_union, hread, ok_bind] at h
            simp only [hget] at h
            cases h
            exact nofun
        | some m =>
            -- the failure is the body's: the member tests nothing that the union has
            -- not tested
            have hm : (tag, m) ∈ u.members := Entries.mem_of_lookup hget
            have hu : u.Agreed := ha.2 u (Layer.self_mem_layers _)
            rw [Layer.check_union_of_agreed hw hu (readTag_eq_ok_iff.mp hread)
              hget] at h
            have hbody := Layer.wellFormed_member.mp (Union.wellFormed_of_mem hw hm)
            exact (ih tag m hm).1 hbody (ha.body hm) entries path e h
  member m _ _ ha _ _ _ _ := absurd (Layer.self_mem_layers _) (ha.1 m)

/-- A union that makes its members agrees with them. An agreed union judges an
object as the body of the member that the object's tag names, and a schema with
agreement at every depth never reports a tag of another member. -/
theorem Schema.agreed_judges_by_body :
    (∀ discriminator additions,
      (∀ a ∈ additions, ∃ tag body, a = Union.Addition.member tag body) →
        (Union.ofAdditions discriminator additions).Agreed) ∧
      (∀ u : Union, (Schema.object (.union u)).Built → u.Agreed → ∀ entries tag m path,
        entries.lookup u.discriminator = some (.string tag) → u.get? tag = some m →
          (Schema.object (.union u)).check (some (.object entries)) path =
            (Schema.object m.body).check (some (.object entries)) path) ∧
      ∀ s : Schema, s.Built → s.Agreed → ∀ value? path e,
        s.check value? path = .error e → e.kind ≠ .discriminatorMismatch := by
  refine ⟨fun d additions h => Union.agreed_ofAdditions d h, ?_, ?_⟩
  · intro u hu ha entries tag m path htag hget
    exact Layer.check_union_of_agreed hu.wellFormed ha htag hget path
  · intro s hs ha
    exact Schema.of_cases never_wrong_tag s hs.wellFormed ha

/-- Lines that are told apart by one field and then test another one. -/
def Union.strayLines : Union :=
  (Union.on "style").variant (.make "dash" (.string "dashed") (.record .dashes))

/-- A gap that is no number fails the union of lines as it fails their body, and
fails the drawing. A member with a field of its own is what it takes for a
line to be refused by its tag. -/
theorem Schema.drawing_judges_by_body :
    let lines :=
      Union.ofAdditions "style" [.member (.string "dashed") (.record .dashes)]
    (Schema.object (.union lines)).Built ∧ lines.Agreed ∧
      (∀ path, (Schema.object (.union lines)).check (some (.dashedLine [.null])) path =
        (Schema.object (.record .dashes)).check (some (.dashedLine [.null])) path) ∧
      Schema.drawing.Built ∧ Schema.drawing.Agreed ∧
      (∃ e, Schema.drawing.check (some (.dashedLine [.null])) .root = .error e ∧
        e.kind ≠ .discriminatorMismatch) ∧
      ¬ Union.strayLines.Agreed ∧
      ∃ e, (Schema.object (.union .strayLines)).check
          (some (.object [("style", .string "dashed"), ("dash", .string "dotted")]))
          .root = .error e ∧
        e.kind = .discriminatorMismatch := by
  intro lines
  obtain ⟨hmade, hbody, hnever⟩ := agreed_judges_by_body
  have hlines : (Schema.object (.union lines)).Built := by decide
  have hagreed : lines.Agreed := hmade "style" _ (by simp)
  have hdrawing : Schema.drawing.Built := by decide
  have hdeep : Schema.drawing.Agreed := by decide
  refine ⟨hlines, hagreed, fun path => ?_, hdrawing, hdeep, ⟨_, rfl, ?_⟩, ?_,
    ⟨_, rfl, rfl⟩⟩
  · exact hbody lines hlines hagreed _ "dashed" _ path rfl rfl
  · exact hnever _ hdrawing hdeep (some (.dashedLine [.null])) .root _ rfl
  · intro h
    exact absurd (h "dashed" _ (.head _)) (by decide)

end JsonShape
