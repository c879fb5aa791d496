import JsonShape.Proofs.Writing
import JsonShape.Schema.Builder

/-!
# Declaring — what a run of builder calls leaves

A record is declared by fields and a union by members, one after another, and a
name may come again. Then its place is that of the first call and what it stands
for is that of the last one, as a whole: of a member the body and the discriminator
too. So a member that the union makes takes the union's discriminator even where
one with a discriminator of its own stood before, and the other way round.
-/

namespace JsonShape

/-! ## Records -/

/-- The record lists each name of these calls once, where it came first, with the
schema that came with it last. -/
structure Record.DeclaredBy (r : Record) (fields : List (String × Schema)) : Prop where
  names : r.names = (fields.map Prod.fst).eraseDups
  once : r.names.Nodup
  size : r.size = (fields.map Prod.fst).toFinset.card
  get? : ∀ name, r.get? name = (fields.findRev? (·.1 == name)).map Prod.snd
  listed : ∀ name s, (name, s) ∈ r.fields ↔ r.get? name = some s

theorem Record.declaredBy_ofFields (fields : List (String × Schema)) :
    (Record.ofFields fields).DeclaredBy fields := by
  have hfields := fields_ofFields fields
  have hnames : (ofFields fields).names = (fields.map Prod.fst).eraseDups := by
    rw [Record.names, hfields, Entries.keys_ofList]
  have honce : (ofFields fields).names.Nodup := by
    rw [hnames]
    exact nodup_eraseDups _
  refine ⟨hnames, honce, ?_, fun name => ?_, fun name s => ?_⟩
  · rw [Record.size, hfields, Entries.length_ofList]
  · rw [Record.get?, hfields, Entries.lookup_ofList]
  · exact (Entries.lookup_eq_some_iff honce).symm

/-! ## Unions -/

/-- The union lists each value of these calls once, where it came first, with the
member that came under it last. -/
structure Union.GatheredFrom (u : Union) (additions : List Union.Addition) : Prop where
  keys : u.memberKeys = (additions.map Addition.key).eraseDups
  once : u.memberKeys.Nodup
  size : u.members.length = (additions.map Addition.key).toFinset.card
  get? : ∀ value, u.get? value =
    (additions.findRev? (·.key == value)).map (Addition.made u.discriminator)
  listed : ∀ value m, (value, m) ∈ u.members ↔ u.get? value = some m
  own : ∀ value m, (value, m) ∈ u.members → value = m.value
  made : ∀ value tag body, additions.findRev? (·.key == value) =
    some (.member tag body) →
    u.get? value = some ⟨u.discriminator, value, body⟩
  given : ∀ value m, additions.findRev? (·.key == value) = some (.variant m) →
    u.get? value = some m

/-- The addition that is found for a value has it. -/
theorem Union.Addition.key_of_findRev? {additions : List Addition} {value : String}
    {a : Addition} (h : additions.findRev? (·.key == value) = some a) :
    a.key = value := by
  rw [List.findRev?_eq_find?_reverse] at h
  have hkey := List.find?_some h
  exact eq_of_beq hkey

theorem Union.get?_ofAdditions (discriminator : String) (additions : List Addition)
    (value : String) :
    (Union.ofAdditions discriminator additions).get? value =
      (additions.findRev? (·.key == value)).map (Addition.made discriminator) := by
  rw [Union.get?, members_ofAdditions, Entries.lookup_ofList, findRev?_map,
    Option.map_map]
  rfl

theorem Union.gatheredFrom_ofAdditions (discriminator : String)
    (additions : List Addition) :
    (Union.ofAdditions discriminator additions).GatheredFrom additions := by
  have hmembers := members_ofAdditions discriminator additions
  have hgiven : (additions.map fun a => (a.key, a.made discriminator)).map Prod.fst =
      additions.map Addition.key := by rw [List.map_map]; rfl
  have hkeys : (ofAdditions discriminator additions).memberKeys =
      (additions.map Addition.key).eraseDups := by
    rw [memberKeys, hmembers, Entries.keys_ofList, hgiven]
  have honce : (ofAdditions discriminator additions).memberKeys.Nodup := by
    rw [hkeys]
    exact nodup_eraseDups _
  have hlisted : ∀ value m, (value, m) ∈ (ofAdditions discriminator additions).members ↔
      (ofAdditions discriminator additions).get? value = some m :=
    fun _ _ => (Entries.lookup_eq_some_iff honce).symm
  refine ⟨hkeys, honce, ?size, fun value => ?get?, hlisted, fun value m hm => ?own,
    fun value tag body hlast => ?made, fun value m hlast => ?given⟩
  case size =>
    rw [hmembers, Entries.length_ofList, hgiven]
  case get? =>
    rw [get?_ofAdditions, discriminator_ofAdditions]
  case own =>
    rw [hlisted, get?_ofAdditions] at hm
    obtain ⟨a, ha, rfl⟩ := Option.map_eq_some_iff.mp hm
    rw [Addition.value_made, Addition.key_of_findRev? ha]
  case made =>
    obtain rfl : tag.text = value := Addition.key_of_findRev? hlast
    rw [get?_ofAdditions, hlast, discriminator_ofAdditions]
    rfl
  case given =>
    rw [get?_ofAdditions, hlast]
    rfl

/-- Whatever calls declare a record or a union, the first one of a name says where
it stands and the last one what it stands for. -/
theorem Schema.first_place_last_value :
    (∀ fields, (Record.ofFields fields).DeclaredBy fields) ∧
      ∀ discriminator additions,
        (Union.ofAdditions discriminator additions).discriminator = discriminator ∧
          (Union.ofAdditions discriminator additions).GatheredFrom additions :=
  ⟨Record.declaredBy_ofFields, fun discriminator additions =>
    ⟨Union.discriminator_ofAdditions discriminator additions,
      Union.gatheredFrom_ofAdditions discriminator additions⟩⟩

/-- The integer 1 and the string `1` are one value, and the last of them takes the
place of the first with its own discriminator. -/
example :
    let u := Union.ofAdditions "version" [.member (.integer 1) (.record .empty),
      .member (.integer 2) (.record .empty),
      .variant ⟨"format", "1", .union (.on "kind")⟩]
    u.memberKeys = ["1", "2"] ∧
      (u.get? "1").map Member.discriminator = some "format" := by
  decide

end JsonShape
