import JsonShape.Proofs.Acceptance
import JsonShape.Proofs.Layering
import JsonShape.Value.Navigation

/-!
# Substitution — one edit is judged where it is made

In a document that a schema accepts, every field and every element is judged
by the schema that is assigned to its place, independently of the others. So
after one edit the verdict on the whole document is the verdict on what was
put there, at its place. The edit must leave alone the tags by which the
layers around it were selected.
-/

namespace JsonShape

/-! ## The loops, where all but one place is accepted -/

/-- Among distinct fields of which all others are accepted, one decides. -/
theorem Record.checkFields_eq_field {fields : List (String × Schema)}
    {entries : List (String × Value)} {path : Path} {name : String} {s : Schema}
    (hkeys : (Entries.keys fields).Nodup) (hs : (name, s) ∈ fields)
    (hothers : ∀ n t, (n, t) ∈ fields → n ≠ name →
      t.check (entries.lookup n) (path.field n) = .ok ()) :
    Record.checkFields fields entries path =
      s.check (entries.lookup name) (path.field name) := by
  induction fields with
  | nil => cases hs
  | cons f rest ih =>
      obtain ⟨n, t⟩ := f
      rw [Entries.keys_cons, List.nodup_cons] at hkeys
      have hfresh : ∀ k u, (k, u) ∈ rest → k ≠ n := by
        intro k u hm hk
        exact hkeys.1 (List.mem_map.mpr ⟨(k, u), hm, hk⟩)
      rw [Record.checkFields]
      rcases List.mem_cons.mp hs with hhead | hs
      · -- this is the field: no later one has its name, and those are accepted
        cases hhead
        have hrest : Record.checkFields rest entries path = .ok () := by
          rw [Record.checkFields_eq_ok_iff]
          intro k u hm
          exact hothers k u (List.mem_cons_of_mem _ hm) (hfresh k u hm)
        rw [hrest]
        cases s.check (entries.lookup name) (path.field name) <;> rfl
      · -- an earlier field, accepted as it is
        have hne : n ≠ name := (hfresh name s hs).symm
        rw [hothers n t List.mem_cons_self hne, ok_bind]
        exact ih hkeys.2 hs fun k u hm => hothers k u (List.mem_cons_of_mem _ hm)

/-- Among elements of which all others are accepted, one decides. -/
theorem checkItems_set {check : Value → Path → Verdict} {path : Path}
    {items : List Value} {start position : Nat} {item : Value}
    (hposition : position < items.length)
    (hothers : ∀ i x, items[i]? = some x → i ≠ position →
      check x (path.index (start + i)) = .ok ()) :
    checkItems check path start (items.set position item) =
      check item (path.index (start + position)) := by
  induction items generalizing start position with
  | nil => cases hposition
  | cons first rest ih =>
      have hshift : ∀ k, start + 1 + k = start + (k + 1) := fun k => by omega
      cases position with
      | zero =>
          have hrest : checkItems check path (start + 1) rest = .ok () := by
            rw [checkItems_eq_ok_iff]
            intro i x hx
            rw [hshift]
            exact hothers (i + 1) x hx (by omega)
          rw [List.set_cons_zero, checkItems, hrest, Nat.add_zero]
          cases check item (path.index start) <;> rfl
      | succ position =>
          have hfirst : check first (path.index start) = .ok () :=
            hothers 0 first rfl (by omega)
          rw [List.set_cons_succ, checkItems, hfirst, ok_bind, ← hshift position]
          refine ih (Nat.lt_of_succ_lt_succ hposition) fun i x hx hi => ?_
          rw [hshift]
          exact hothers (i + 1) x hx (by omega)

/-! ## The record behind the layers -/

/-- Where these layers read their tags, `other` holds what `entries` does. -/
def TagsUntouched (layers : List Layer) (entries other : List (String × Value)) :
    Prop :=
  ∀ l ∈ layers, ∀ d, l.discriminator? = some d → other.lookup d = entries.lookup d

theorem TagsUntouched.below {l : Layer} {rest : List Layer}
    {entries other : List (String × Value)}
    (h : TagsUntouched (l :: rest) entries other) :
    TagsUntouched rest entries other := by
  intro k hk
  exact h k (List.mem_cons_of_mem _ hk)

theorem TagsUntouched.readTag {l : Layer} {rest : List Layer}
    {entries other : List (String × Value)} {d tag : String}
    (h : TagsUntouched (l :: rest) entries other) (hd : l.discriminator? = some d)
    (htag : entries.lookup d = some (.string tag)) (path : Path) :
    JsonShape.readTag other d path = .ok tag := by
  rw [readTag_eq_ok_iff, h l List.mem_cons_self d hd, htag]

/-- Writing a field that no layer reads as its tag leaves all tags alone. -/
theorem TagsUntouched.assign {layers : List Layer} {name : String}
    (h : ∀ l ∈ layers, l.discriminator? ≠ some name) (entries : List (String × Value))
    (value? : Option Value) :
    TagsUntouched layers entries (Entries.assign entries name value?) := by
  intro l hl d hd
  have hne : d ≠ name := by
    rintro rfl
    exact h l hl hd
  exact Entries.lookup_assign_ne _ hne _

/-- `r.Settles l entries`: the tags of an accepted object lead from the layer
`l` to the record `r`, and `r` alone judges every object with these tags. -/
structure Record.Settles (r : Record) (l : Layer) (entries : List (String × Value)) :
    Prop where
  wellFormed : (Layer.record r).WellFormed
  admits : (Layer.record r).Admits entries
  check : ∀ other : List (String × Value),
    TagsUntouched (l.applied entries) entries other →
      ∀ path, l.check other path = Record.checkFields r.fields other path

theorem settles_of_applied :
    LayeredCases (fun _ => True) (fun l => l.WellFormed → ∀ entries, l.Admits entries →
      ∀ r, .record r ∈ l.applied entries → r.Settles l entries) where
  primitive _ := trivial
  array _ _ := trivial
  object _ _ := trivial
  record r _ hw entries h k hk := by
    rw [Layer.applied_record, List.mem_singleton] at hk
    cases hk
    exact ⟨hw, h, fun other _ path => Layer.check_record r other path⟩
  union u ih hw entries h r hr := by
    obtain ⟨tag, m, htag, hm, hmember⟩ := Layer.admits_union_iff.mp h
    rw [Layer.wellFormed_union] at hw
    have hget : u.get? tag = some m := (Entries.lookup_eq_some_iff hw.1).mpr hm
    have happlied := Layer.applied_union_of_get? htag hget
    rw [happlied] at hr
    have hbelow :=
      (ih tag m hm).2 (Layer.wellFormed_member.mpr (hw.2 tag m hm).2) entries hmember
      r ((List.mem_cons.mp hr).resolve_left nofun)
    refine ⟨hbelow.wellFormed, hbelow.admits, fun other htags path => ?_⟩
    rw [happlied] at htags
    -- the other object has the same tag, so the same member is selected
    rw [Layer.check_union, htags.readTag rfl htag, ok_bind, hget]
    exact hbelow.check other htags.below path
  member m ih hw entries h r hr := by
    obtain ⟨htag, hbody⟩ := Layer.admits_member_iff.mp h
    have happlied := Layer.applied_member_of_tag htag
    rw [happlied] at hr
    have hbelow := ih (Layer.wellFormed_member.mp hw) entries hbody r
      ((List.mem_cons.mp hr).resolve_left nofun)
    refine ⟨hbelow.wellFormed, hbelow.admits, fun other htags path => ?_⟩
    rw [happlied] at htags
    rw [Layer.check_member, Member.check_eq, htags.readTag rfl htag, ok_bind,
      if_pos rfl]
    exact hbelow.check other htags.below path

theorem Layer.settles {l : Layer} {entries : List (String × Value)} {r : Record}
    (hw : l.WellFormed) (h : l.Admits entries) (hr : .record r ∈ l.applied entries) :
    r.Settles l entries :=
  Layer.of_cases settles_of_applied l hw entries h r hr

/-- The record behind the layers of an accepted object judges the object by
one field, when another value or none is put into that field and the field
is no tag. -/
theorem Record.Settles.check_assign {r : Record} {l : Layer}
    {entries : List (String × Value)} (h : r.Settles l entries) {name : String}
    {s : Schema} (hs : (name, s) ∈ r.fields)
    (htags : ∀ k ∈ l.applied entries, k.discriminator? ≠ some name)
    (value? : Option Value) (path : Path) :
    l.check (Entries.assign entries name value?) path =
      s.check value? (path.field name) := by
  obtain ⟨hkeys, hfields⟩ := Layer.wellFormed_record.mp h.wellFormed
  rw [h.check _ (.assign htags entries value?), Record.checkFields_eq_field hkeys hs,
    Entries.lookup_assign_self]
  intro n t hm hne
  rw [Entries.lookup_assign_ne _ hne]
  exact Schema.check_of_admits (hfields n t hm)
    (Layer.admits_record_iff.mp h.admits n t hm) _

/-! ## Whole edits -/

/-- An edit leaves something where there was a value, unless it takes out the
value itself. -/
theorem Value.exists_edit (value : Value) {below : List Segment} {new? : Option Value}
    (h : below = [] → new? ≠ none) :
    ∃ edited, Value.edit (some value) below new? = some edited := by
  cases below with
  | nil =>
      rw [Value.edit]
      exact Option.ne_none_iff_exists'.mp (h rfl)
  | cons segment rest =>
      cases value with
      | object entries => cases segment <;> exact ⟨_, rfl⟩
      | array items =>
          cases segment with
          | field name => exact ⟨_, rfl⟩
          | index position =>
              rw [Value.edit]
              cases Value.edit items[position]? rest new? <;> exact ⟨_, rfl⟩
      | _ => cases segment <;> exact ⟨_, rfl⟩

/-- An edit within an element that is there replaces that element. -/
theorem Value.edit_item {items : List Value} {position : Nat} {item edited : Value}
    {below : List Segment} {new? : Option Value} (hitem : items[position]? = some item)
    (h : Value.edit (some item) below new? = some edited) :
    Value.edit (some (.array items)) (.index position :: below) new? =
      some (.array (items.set position edited)) := by
  rw [Value.edit, hitem, h]

/-- The replacement may be absent only where the last step is a field. -/
def Removable (below : List Segment) (new? : Option Value) : Prop :=
  new? = none → ∀ above position, below ≠ above ++ [.index position]

theorem Removable.replaced (below : List Segment) (new : Value) :
    Removable below (some new) :=
  nofun

theorem Removable.field (above : List Segment) (name : String) (new? : Option Value) :
    Removable (above ++ [.field name]) new? := by
  intro _ up position h
  have hlast := congrArg List.getLast? h
  simp at hlast

theorem Removable.below {segment : Segment} {below : List Segment} {new? : Option Value}
    (h : Removable (segment :: below) new?) : Removable below new? := by
  intro hnew above position hbelow
  exact h hnew (segment :: above) position (by rw [hbelow]; rfl)

theorem Removable.exists_edit {position : Nat} {below : List Segment}
    {new? : Option Value} (h : Removable (.index position :: below) new?)
    (item : Value) :
    ∃ edited, Value.edit (some item) below new? = some edited := by
  refine Value.exists_edit item fun hbelow hnew => ?_
  exact h hnew [] position (by rw [hbelow]; rfl)

/-- The edited document holds the replacement where the edit was made. -/
theorem Schema.Assigns.follow_edit {s t : Schema} {value? : Option Value}
    {below : List Segment} (h : s.Assigns value? below t) {new? : Option Value}
    (hnew : Removable below new?) :
    Value.follow (Value.edit value? below new?) below = new? := by
  induction h with
  | here => rfl
  | @item element t items item position rest hitem _ ih =>
      obtain ⟨edited, hedited⟩ := hnew.exists_edit item
      have hlt : position < items.length := (List.getElem?_eq_some_iff.mp hitem).1
      have hstep :
          Value.step (some (.array (items.set position edited))) (.index position) =
          some edited := by
        simp [Value.step, hlt]
      rw [Value.edit_item hitem hedited, Value.follow_cons, hstep, ← hedited]
      exact ih hnew.below
  | field _ _ _ _ ih =>
      rw [Value.edit, Value.follow_cons, Value.step, Entries.lookup_assign_self]
      exact ih hnew.below

/-- The edited document is judged as the replacement is at its place. -/
theorem Schema.Assigns.check_edit {s t : Schema} {value? : Option Value}
    {below : List Segment} (h : s.Assigns value? below t) (hw : s.WellFormed)
    (ha : s.Admits value?) {new? : Option Value} (hnew : Removable below new?)
    (path : Path) :
    s.check (Value.edit value? below new?) path = t.check new? (path ++ ⟨below⟩) := by
  induction h generalizing path with
  | here => rw [Value.edit, ← Path.root, Path.append_root]
  | @item element t items item position rest hitem _ ih =>
      obtain ⟨items', heq, hitems⟩ := Schema.admits_array_iff.mp ha
      cases heq
      -- the edit leaves some element in its place, which alone decides
      obtain ⟨edited, hedited⟩ := hnew.exists_edit item
      have hlt : position < items.length := (List.getElem?_eq_some_iff.mp hitem).1
      have hwe : element.WellFormed := hw
      have hothers : ∀ i x, items[i]? = some x → i ≠ position →
          element.check (some x) (path.index (0 + i)) = .ok () := fun i x hx _ =>
        Schema.check_of_admits hwe (hitems x (List.mem_of_getElem? hx)) _
      have hbelow := ih hwe (hitems item (List.mem_of_getElem? hitem)) hnew.below
        (path.index position)
      rw [hedited, Path.index, Path.push_append] at hbelow
      rw [Value.edit_item hitem hedited, Schema.check_array, requireArray, ok_bind,
        checkItems_set hlt hothers, Nat.zero_add]
      exact hbelow
  | @field layer entries r name s t rest hr hs htags _ ih =>
      obtain ⟨entries', heq, hlayer⟩ := Schema.admits_object_iff.mp ha
      cases heq
      -- the tags stand, so the same record judges, by the one field that changed
      have hsettles := Layer.settles hw hlayer hr
      have hws : s.WellFormed :=
        (Layer.wellFormed_record.mp hsettles.wellFormed).2 name s hs
      have has : s.Admits (entries.lookup name) :=
        Layer.admits_record_iff.mp hsettles.admits name s hs
      rw [Value.edit, Schema.check_object, requireObject, ok_bind,
        hsettles.check_assign hs htags, ih hws has hnew.below, Path.field,
        Path.push_append]

theorem Schema.check_absent {t : Schema} (h : t ≠ .primitive .undefined) (path : Path) :
    t.check none path = .error (Failure.missing path) := by
  cases t with
  | primitive kind =>
      have hkind : kind ≠ .undefined := fun hk => h (congrArg Schema.primitive hk)
      rw [Schema.check_primitive, Primitive.check_absent, if_neg hkind]
      rfl
  | array element => rfl
  | object layer => rfl

/-- After one edit of an accepted document, at a position to which the schema
assigns a schema of its own, the whole document is judged as that schema
judges the replacement, at that position. Taking out what had to be there is
reported as missing there. -/
theorem Schema.substitution {s t : Schema} {v : Value} {below : List Segment}
    (hs : s.Built) (hv : s.validate v = .ok ()) (ht : s.Assigns (some v) below t)
    {new? : Option Value} (hnew : Removable below new?) (path : Path) :
    Value.follow (Value.edit (some v) below new?) below = new? ∧
      s.check (Value.edit (some v) below new?) path = t.check new? (path ++ ⟨below⟩) ∧
      (new? = none → t ≠ .primitive .undefined →
        s.check (Value.edit (some v) below new?) path =
          .error (Failure.missing (path ++ ⟨below⟩))) := by
  have hjudged := ht.check_edit hs.wellFormed (Schema.admits_of_check hv) hnew path
  refine ⟨ht.follow_edit hnew, hjudged, fun hnone hundefined => ?_⟩
  rw [hjudged, hnone]
  exact Schema.check_absent hundefined _

/-- The gaps of a dashed line are a field below two unions and two members,
none of which reads it as its tag. -/
theorem Schema.drawing_assigns_gaps {gaps : List Value} {below : List Segment}
    {t : Schema}
    (h : (Schema.array (.primitive .number)).Assigns (some (.array gaps)) below t) :
    Schema.drawing.Assigns (some (.dashedLine gaps)) (.field "gaps" :: below) t := by
  refine .field (r := .dashes) ?_ (.head _) ?_ h
  · exact .tail _ (.tail _ (.tail _ (.tail _ (.head _))))
  · intro l hl hd
    have hread :
        some "gaps" ∈ [some "kind", some "kind", some "style", some "style", none] :=
      List.mem_map.mpr ⟨l, hl, hd⟩
    exact absurd hread (by decide)

/-- Without its gaps a dashed line misses them; a gap that is no number is
one of the wrong type. -/
theorem Schema.drawing_edited_gaps :
    Schema.drawing.validate (.dashedLine [.number 4 0, .number 2 0]) = .ok () ∧
      Schema.drawing.check
          (Value.edit (some (.dashedLine [.number 4 0, .number 2 0]))
            [.field "gaps"] none) .root =
        .error (Failure.missing (.root ++ ⟨[.field "gaps"]⟩)) ∧
      Schema.drawing.check
          (Value.edit (some (.dashedLine [.number 4 0, .number 2 0]))
            [.field "gaps", .index 1] (some .null)) .root =
        (Schema.primitive .number).check (some .null)
          (.root ++ ⟨[.field "gaps", .index 1]⟩) := by
  have hbuilt : Schema.drawing.Built := by decide
  have hvalid :
      Schema.drawing.validate (.dashedLine [.number 4 0, .number 2 0]) = .ok () := by
    decide
  refine ⟨hvalid, ?_, ?_⟩
  · have hgaps : Schema.drawing.Assigns (some (.dashedLine [.number 4 0, .number 2 0]))
        [.field "gaps"] (.array (.primitive .number)) := drawing_assigns_gaps .here
    exact (substitution hbuilt hvalid hgaps (.field [] "gaps" none) .root).2.2 rfl nofun
  · have hgap : Schema.drawing.Assigns (some (.dashedLine [.number 4 0, .number 2 0]))
        [.field "gaps", .index 1] (.primitive .number) :=
      drawing_assigns_gaps (.item rfl .here)
    exact (substitution hbuilt hvalid hgap (.replaced _ .null) .root).2.1

end JsonShape
