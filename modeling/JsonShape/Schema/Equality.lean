import JsonShape.Schema.Basic

/-!
# Schema — equality up to declaration order

Two schemas are equal when they ask for the same: the order in which a
record declares its fields and a union its members does not matter, at any
depth. Two keyed lists are compared by their lengths and by looking up each
key of the left in the right; this is symmetric because keys are distinct.
-/

namespace JsonShape

mutual

def Schema.equal : Schema → Schema → Bool
  | .primitive kind, .primitive other => kind == other
  | .array element, .array other => element.equal other
  | .object layer, .object other => layer.equal other
  | _, _ => false
termination_by structural schema => schema

def Layer.equal : Layer → Layer → Bool
  | .record ⟨fields⟩, .record other =>
      fields.length == other.fields.length && Record.fieldsWithin fields other.fields
  | .union ⟨discriminator, members⟩, .union other =>
      discriminator == other.discriminator &&
        (members.length == other.members.length &&
          Union.membersWithin members other.members)
  | .member member, .member other => member.equal other
  | _, _ => false
termination_by structural layer => layer

def Member.equal : Member → Member → Bool
  | ⟨discriminator, value, body⟩, other =>
      discriminator == other.discriminator &&
        (value == other.value && body.equal other.body)
termination_by structural member => member

/-- Every field on the left has an equal one of its name on the right. -/
def Record.fieldsWithin : List (String × Schema) → List (String × Schema) → Bool
  | [], _ => true
  | (name, schema) :: rest, others =>
      (match others.lookup name with
        | some other => schema.equal other
        | none => false) && Record.fieldsWithin rest others
termination_by structural fields => fields

/-- Every member on the left has an equal one under its key on the right. -/
def Union.membersWithin : List (String × Member) → List (String × Member) → Bool
  | [], _ => true
  | (key, member) :: rest, others =>
      (match others.lookup key with
        | some other => member.equal other
        | none => false) && Union.membersWithin rest others
termination_by structural members => members

end

instance : BEq Schema := ⟨Schema.equal⟩

instance : BEq Layer := ⟨Layer.equal⟩

instance : BEq Member := ⟨Member.equal⟩

instance : BEq Record := ⟨fun r s => Layer.record r == Layer.record s⟩

instance : BEq Union := ⟨fun u v => Layer.union u == Layer.union v⟩

/-! ## When two parts are equal -/

namespace Schema

@[simp] theorem primitive_beq (kind other : Primitive) :
    (primitive kind == primitive other) = (kind == other) := rfl

@[simp] theorem array_beq (element other : Schema) :
    (array element == array other) = (element == other) := rfl

@[simp] theorem object_beq (layer other : Layer) :
    (object layer == object other) = (layer == other) := rfl

end Schema

theorem Member.beq_iff {m n : Member} :
    (m == n) = true ↔
      m.discriminator = n.discriminator ∧ m.value = n.value ∧
        (m.body == n.body) = true := by
  cases m
  simp [BEq.beq, Member.equal]

theorem Record.fieldsWithin_iff {fields others : List (String × Schema)} :
    Record.fieldsWithin fields others = true ↔
      ∀ name s, (name, s) ∈ fields → ∃ t, others.lookup name = some t ∧
        (s == t) = true := by
  induction fields with
  | nil => simp [Record.fieldsWithin]
  | cons f rest ih =>
      obtain ⟨name, schema⟩ := f
      rw [Record.fieldsWithin, Bool.and_eq_true, ih]
      constructor
      · rintro ⟨hhead, hrest⟩ n s hm
        rcases List.mem_cons.mp hm with e | hm
        · obtain ⟨rfl, rfl⟩ := Prod.mk.inj e
          cases hl : others.lookup n with
          | none => rw [hl] at hhead; cases hhead
          | some t => rw [hl] at hhead; exact ⟨t, rfl, hhead⟩
        · exact hrest n s hm
      · intro h
        obtain ⟨t, hl, ht⟩ := h name schema List.mem_cons_self
        rw [hl]
        exact ⟨ht, fun n s hm => h n s (List.mem_cons_of_mem _ hm)⟩

theorem Union.membersWithin_iff {members others : List (String × Member)} :
    Union.membersWithin members others = true ↔
      ∀ key m, (key, m) ∈ members → ∃ n, others.lookup key = some n ∧
        (m == n) = true := by
  induction members with
  | nil => simp [Union.membersWithin]
  | cons e rest ih =>
      obtain ⟨key, member⟩ := e
      rw [Union.membersWithin, Bool.and_eq_true, ih]
      constructor
      · rintro ⟨hhead, hrest⟩ k m hm
        rcases List.mem_cons.mp hm with e | hm
        · obtain ⟨rfl, rfl⟩ := Prod.mk.inj e
          cases hl : others.lookup k with
          | none => rw [hl] at hhead; cases hhead
          | some n => rw [hl] at hhead; exact ⟨n, rfl, hhead⟩
        · exact hrest k m hm
      · intro h
        obtain ⟨n, hl, hn⟩ := h key member List.mem_cons_self
        rw [hl]
        exact ⟨hn, fun k m hm => h k m (List.mem_cons_of_mem _ hm)⟩

/-- Records are equal when they have as many fields and each has an equal
partner. -/
theorem Record.beq_iff {r s : Record} :
    (r == s) = true ↔
      r.fields.length = s.fields.length ∧
        ∀ name t, (name, t) ∈ r.fields → ∃ t', s.get? name = some t' ∧
          (t == t') = true := by
  obtain ⟨fields⟩ := r
  show (fields.length == s.fields.length &&
    Record.fieldsWithin fields s.fields) = true ↔ _
  rw [Bool.and_eq_true, beq_iff_eq, Record.fieldsWithin_iff]
  exact Iff.rfl

/-- Unions are equal when they read the same discriminator, have as many
members and each has an equal partner. -/
theorem Union.beq_iff {u v : Union} :
    (u == v) = true ↔
      u.discriminator = v.discriminator ∧ u.members.length = v.members.length ∧
        ∀ key m, (key, m) ∈ u.members → ∃ n, v.get? key = some n ∧ (m == n) = true := by
  obtain ⟨d, members⟩ := u
  show (d == v.discriminator &&
    (members.length == v.members.length &&
      Union.membersWithin members v.members)) = true ↔ _
  rw [Bool.and_eq_true, Bool.and_eq_true, beq_iff_eq, beq_iff_eq,
    Union.membersWithin_iff]
  exact Iff.rfl

end JsonShape
