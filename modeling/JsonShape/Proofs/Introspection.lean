import JsonShape.Proofs.Building
import JsonShape.Proofs.Writing
import JsonShape.Schema.Description
import JsonShape.Schema.Layers
import JsonShape.Validation.Basic

/-!
# Introspection — a description loses nothing

What a schema tells about itself is enough to build it again, call by call: a
record from its fields in the order in which they are listed, a union from its
listed members. Building writes keyed lists entry by entry, and writing distinct
keys leaves them as they come, so the order survives at every depth.

The other half is about the views that stand beside each other at one node: the
listed parts, the lookup by name and the counts say the same.
-/

namespace JsonShape

/-! ## Making the parts of a schema again -/

theorem Record.ext_fields : ∀ {r t : Record}, r.fields = t.fields → r = t
  | ⟨_⟩, ⟨_⟩, h => congrArg Record.mk h

theorem Union.ext_members : ∀ {u w : Union}, u.discriminator = w.discriminator →
    u.members = w.members → u = w
  | ⟨_, _⟩, ⟨_, _⟩, hd, hm => congr (congrArg Union.mk hd) hm

/-- Declaring the fields of a record again makes the record again. -/
theorem Record.ofFields_fields {r : Record} (hr : (Layer.record r).WellFormed) :
    Record.ofFields r.fields = r := by
  apply Record.ext_fields
  rw [Record.fields_ofFields, Entries.ofList_of_nodup (Layer.wellFormed_record.mp hr).1]

/-- The members of a union in declaration order. -/
def Union.listed (u : Union) : List Member :=
  u.members.map Prod.snd

/-- Keys are the values of the members under them, so the listed members tell
the keys. -/
theorem Union.members_eq_listed {u : Union} (hu : (Layer.union u).WellFormed) :
    u.members = u.listed.map fun m => (m.value, m) := by
  rw [listed, List.map_map]
  refine (List.map_id u.members).symm.trans (List.map_congr_left ?_)
  rintro ⟨key, m⟩ hm
  exact congrArg (·, m) (Union.key_eq_value hu hm)

/-- Adding the listed members again makes the union again. -/
theorem Union.ofAdditions_listed {u : Union} (hu : (Layer.union u).WellFormed) :
    Union.ofAdditions u.discriminator (u.listed.map .variant) = u := by
  apply Union.ext_members
  · exact Union.discriminator_ofAdditions ..
  · rw [Union.members_ofAdditions, List.map_map]
    calc Entries.ofList (u.listed.map fun m => (m.value, m))
        = Entries.ofList u.members := by rw [← Union.members_eq_listed hu]
      _ = u.members := Entries.ofList_of_nodup (Layer.wellFormed_union.mp hu).1

/-! ## A description is read back -/

/-- A value is the text of a tag, so a member is read back when its body is. -/
theorem Member.rebuild?_describe {m : Member}
    (h : m.body.describe.rebuild? = some (.object m.body)) :
    m.describe.rebuild? = some m := by
  obtain ⟨d, value, body⟩ := m
  rw [Member.describe, MemberDescription.rebuild?, h]
  rfl

theorem Record.rebuildFields?_describe {fields : List (String × Schema)}
    (h : ∀ name s, (name, s) ∈ fields → s.describe.rebuild? = some s) :
    Description.rebuildFields? (Record.describeFields fields) = some fields := by
  induction fields with
  | nil => rfl
  | cons f rest ih =>
      obtain ⟨name, s⟩ := f
      have hrest := ih fun n t hm => h n t (List.mem_cons_of_mem _ hm)
      rw [describeFields, Description.rebuildFields?,
        h name s List.mem_cons_self, hrest]
      rfl

theorem Union.rebuildMembers?_describe {members : List (String × Member)}
    (h : ∀ key m, (key, m) ∈ members → m.describe.rebuild? = some m) :
    Description.rebuildMembers? (Union.describeMembers members) =
      some (members.map Prod.snd) := by
  induction members with
  | nil => rfl
  | cons e rest ih =>
      obtain ⟨key, m⟩ := e
      have hrest := ih fun k n hm => h k n (List.mem_cons_of_mem _ hm)
      rw [describeMembers, Description.rebuildMembers?,
        h key m List.mem_cons_self, hrest]
      rfl

theorem rebuild_describe :
    LayeredCases (fun s => s.WellFormed → s.describe.rebuild? = some s)
      (fun l => l.WellFormed → l.describe.rebuild? = some (.object l)) where
  primitive kind _ := by
    rw [Schema.describe, Description.rebuild?, Primitive.ofName?_name]
    rfl
  array element ih h := by
    rw [Schema.describe, Description.rebuild?, ih h]
    rfl
  object layer ih h := ih h
  record r ih h := by
    have hread := Record.rebuildFields?_describe fun name s hs =>
      ih name s hs (Record.wellFormed_of_mem h hs)
    have hbuilt := Record.ofFields_fields h
    obtain ⟨fields⟩ := r
    rw [Layer.describe, Description.rebuild?, hread]
    exact congrArg (fun r => some (Schema.object (.record r))) hbuilt
  union u ih h := by
    -- a member is read back through its body, which is a schema of its own
    have hread := Union.rebuildMembers?_describe fun key m hm =>
      Member.rebuild?_describe
        ((ih key m hm).1 (Layer.wellFormed_member.mp (Union.wellFormed_of_mem h hm)))
    have hbuilt := Union.ofAdditions_listed h
    obtain ⟨d, members⟩ := u
    rw [Layer.describe, Description.rebuild?, hread]
    exact congrArg (fun u => some (Schema.object (.union u))) hbuilt
  member m ih h := by
    have hread := Member.rebuild?_describe (ih (Layer.wellFormed_member.mp h))
    rw [Layer.describe, Description.rebuild?, hread]
    rfl

theorem Schema.Built.rebuild?_describe {s : Schema} (hs : s.Built) :
    s.describe.rebuild? = some s :=
  Schema.of_cases rebuild_describe s hs.wellFormed

/-! ## Counts and keys repeat what is listed -/

mutual

/-- What a description lists, without the counts and keys that it adds. -/
def Description.bare : Description → Description
  | .primitive name => .primitive name
  | .array element => .array element.bare
  | .record _ fields => .record 0 (Description.bareFields fields)
  | .union discriminator _ members =>
      .union discriminator [] (Description.bareMembers members)
  | .member member => .member member.bare

def MemberDescription.bare : MemberDescription → MemberDescription
  | ⟨discriminator, value, body⟩ => ⟨discriminator, value, body.bare⟩

def Description.bareFields : List (String × Description) → List (String × Description)
  | [] => []
  | (name, field) :: rest => (name, field.bare) :: Description.bareFields rest

def Description.bareMembers : List MemberDescription → List MemberDescription
  | [] => []
  | member :: rest => member.bare :: Description.bareMembers rest

end

mutual

theorem Description.rebuild?_bare : ∀ d : Description, d.bare.rebuild? = d.rebuild?
  | .primitive _ => rfl
  | .array element => by
      unfold Description.bare Description.rebuild?
      rw [Description.rebuild?_bare element]
  | .record _ fields => by
      unfold Description.bare Description.rebuild?
      rw [Description.rebuildFields?_bare fields]
  | .union _ _ members => by
      unfold Description.bare Description.rebuild?
      rw [Description.rebuildMembers?_bare members]
  | .member member => by
      unfold Description.bare Description.rebuild?
      rw [MemberDescription.rebuild?_bare member]

theorem MemberDescription.rebuild?_bare :
    ∀ m : MemberDescription, m.bare.rebuild? = m.rebuild?
  | ⟨_, _, body⟩ => by
      unfold MemberDescription.bare MemberDescription.rebuild?
      rw [Description.rebuild?_bare body]

theorem Description.rebuildFields?_bare :
    ∀ fields : List (String × Description),
      Description.rebuildFields? (Description.bareFields fields) =
        Description.rebuildFields? fields
  | [] => rfl
  | (_, field) :: rest => by
      unfold Description.bareFields Description.rebuildFields?
      rw [Description.rebuild?_bare field, Description.rebuildFields?_bare rest]

theorem Description.rebuildMembers?_bare : ∀ members : List MemberDescription,
    Description.rebuildMembers? (Description.bareMembers members) =
      Description.rebuildMembers? members
  | [] => rfl
  | member :: rest => by
      unfold Description.bareMembers Description.rebuildMembers?
      rw [MemberDescription.rebuild?_bare member, Description.rebuildMembers?_bare rest]

end

/-- Built schemas that list the same are the same. -/
theorem Schema.Built.eq_of_bare {s t : Schema} (hs : s.Built) (ht : t.Built)
    (h : s.describe.bare = t.describe.bare) : s = t := by
  apply Option.some.inj
  calc some s = s.describe.rebuild? := hs.rebuild?_describe.symm
    _ = s.describe.bare.rebuild? := (Description.rebuild?_bare _).symm
    _ = t.describe.bare.rebuild? := by rw [h]
    _ = t.describe.rebuild? := Description.rebuild?_bare _
    _ = some t := ht.rebuild?_describe

/-! ## The views of one node -/

/-- A record describes itself by its fields and how many there are; a lookup
finds what is listed under a name and nothing else. -/
structure Record.ViewsAgree (r : Record) : Prop where
  describe : (Layer.record r).describe =
    .record r.size (r.fields.map fun f => (f.1, f.2.describe))
  size : r.size = r.fields.length
  get? : ∀ name s, r.get? name = some s ↔ (name, s) ∈ r.fields
  absent : ∀ name, r.get? name = none ↔ name ∉ r.names

/-- A union describes itself by its members and their values; a lookup finds
the member that is listed with a value and nothing else. -/
structure Union.ViewsAgree (u : Union) : Prop where
  describe : (Layer.union u).describe =
    .union u.discriminator u.memberKeys (u.listed.map Member.describe)
  memberKeys : u.memberKeys = u.listed.map Member.value
  get? : ∀ value m, u.get? value = some m ↔ m ∈ u.listed ∧ m.value = value
  absent : ∀ value, u.get? value = none ↔ ∀ m ∈ u.listed, m.value ≠ value

theorem Record.viewsAgree {r : Record} (h : (Layer.record r).WellFormed) :
    r.ViewsAgree where
  describe := by
    cases r
    rw [Layer.describe, Record.describeFields_eq]
    rfl
  size := rfl
  get? _ _ := Entries.lookup_eq_some_iff (Layer.wellFormed_record.mp h).1
  absent _ := Entries.lookup_eq_none_iff

theorem Union.memberKeys_eq_listed {u : Union} (hu : (Layer.union u).WellFormed) :
    u.memberKeys = u.listed.map Member.value := by
  rw [memberKeys, members_eq_listed hu, Entries.keys, List.map_map]
  rfl

/-- What is found under a value is the listed member that has the value. -/
theorem Union.get?_eq_some_iff_listed {u : Union} (hu : (Layer.union u).WellFormed)
    {value : String} {m : Member} :
    u.get? value = some m ↔ m ∈ u.listed ∧ m.value = value := by
  rw [Union.get?, Entries.lookup_eq_some_iff (Layer.wellFormed_union.mp hu).1,
    members_eq_listed hu, List.mem_map]
  constructor
  · rintro ⟨n, hn, he⟩
    cases he
    exact ⟨hn, rfl⟩
  · rintro ⟨hm, rfl⟩
    exact ⟨m, hm, rfl⟩

theorem Union.viewsAgree {u : Union} (h : (Layer.union u).WellFormed) :
    u.ViewsAgree where
  describe := by
    cases u
    rw [Layer.describe, Union.describeMembers_eq, listed, List.map_map]
    rfl
  memberKeys := Union.memberKeys_eq_listed h
  get? _ _ := Union.get?_eq_some_iff_listed h
  absent value := by
    rw [Option.eq_none_iff_forall_ne_some]
    simp only [ne_eq, Union.get?_eq_some_iff_listed h, not_and]

/-! ## Every node of a built schema -/

theorem wellFormed_of_layers :
    LayeredCases (fun s => s.WellFormed → ∀ l ∈ s.layers, l.WellFormed)
      (fun k => k.WellFormed → ∀ l ∈ k.layers, l.WellFormed) where
  primitive _ _ _ hl := nomatch hl
  array _ ih h := ih h
  object _ ih h := ih h
  record r ih h l hl := by
    rw [Layer.layers_record, List.mem_cons, List.mem_flatMap] at hl
    rcases hl with rfl | ⟨⟨name, s⟩, hm, hl⟩
    · exact h
    · exact ih name s hm (Record.wellFormed_of_mem h hm) l hl
  union u ih h l hl := by
    rw [Layer.layers_union, List.mem_cons, List.mem_flatMap] at hl
    rcases hl with rfl | ⟨⟨key, m⟩, hm, hl⟩
    · exact h
    · exact (ih key m hm).1
        (Layer.wellFormed_member.mp (Union.wellFormed_of_mem h hm)) l hl
  member m ih h l hl := by
    rw [Layer.layers_member, List.mem_cons] at hl
    rcases hl with rfl | hl
    · exact h
    · exact ih (Layer.wellFormed_member.mp h) l hl

theorem Schema.Built.wellFormed_layer {s : Schema} (hs : s.Built) {l : Layer}
    (hl : l ∈ s.layers) : l.WellFormed :=
  Schema.of_cases wellFormed_of_layers s hs.wellFormed l hl

/-- A built schema can be rebuilt from its description, is told from the others
by what it lists, and all its records and unions give consistent views. -/
theorem Schema.introspection_lossless {s : Schema} (hs : s.Built) :
    s.describe.rebuild? = some s ∧
      s.describe.kindName = s.kindName ∧
      (∀ t : Schema, t.Built → s.describe.bare = t.describe.bare →
        ∀ value? path, s.check value? path = t.check value? path) ∧
      (∀ r, .record r ∈ s.layers → r.ViewsAgree) ∧
      ∀ u, s.HasUnion u → u.ViewsAgree := by
  refine ⟨hs.rebuild?_describe, s.kindName_describe, ?told, ?records, ?unions⟩
  case told =>
    intro t ht h value? path
    rw [hs.eq_of_bare ht h]
  case records =>
    intro r hr
    exact Record.viewsAgree (hs.wellFormed_layer hr)
  case unions =>
    intro u hu
    exact Union.viewsAgree (hs.wellFormed_layer hu)

/-- The drawing, made by other calls: a field and a member that are declared
twice, and members that are made before they are added. -/
def Schema.redrawn : Schema :=
  let dashes := (Record.dashes.field "gaps" (.primitive .null)).field "gaps"
    (.array (.primitive .number))
  let line :=
    (Union.on "style").variant (.make "style" (.string "dashed") (.record dashes))
  let placeholder := (Union.on "kind").member (.string "circle") (.record .empty)
  .object (.union
    ((placeholder.variant (.make "kind" (.string "line") (.union line))).member
      (.string "circle") (.record .circle)))

theorem Schema.drawing_is_redrawn :
    Schema.drawing.Built ∧ Schema.redrawn.Built ∧
      Schema.drawing.describe.bare = Schema.redrawn.describe.bare ∧
      Schema.drawing.describe.rebuild? = some Schema.drawing ∧
      (∀ value? path, Schema.drawing.check value? path =
        Schema.redrawn.check value? path) ∧
      Record.dashes.ViewsAgree ∧
      ((Union.on "style").member (.string "dashed") (.record .dashes)).ViewsAgree := by
  have hdrawing : Schema.drawing.Built := by decide
  have hredrawn : Schema.redrawn.Built := by decide
  have halike : Schema.drawing.describe.bare = Schema.redrawn.describe.bare := rfl
  have hlines : Schema.drawing.HasUnion ((Union.on "style").member (.string "dashed")
      (.record .dashes)) := .tail _ (.tail _ (.head _))
  have hdashes : .record .dashes ∈ Schema.drawing.layers :=
    .tail _ (.tail _ (.tail _ (.head _)))
  obtain ⟨hread, _, htold, hrecords, hunions⟩ := Schema.introspection_lossless hdrawing
  exact ⟨hdrawing, hredrawn, halike, hread, htold .redrawn hredrawn halike,
    hrecords .dashes hdashes, hunions _ hlines⟩

end JsonShape
