import JsonShape.Schema.Basic

/-!
# Schema — the layers that occur in a schema

All layers of a schema at every depth, outermost first. A union's member is
not a layer of its own there, but its body is; so a member among the layers
is one that stands on its own or as a body.
-/

namespace JsonShape

mutual

/-- The layers in a schema. -/
def Schema.layers : Schema → List Layer
  | .primitive _ => []
  | .array element => element.layers
  | .object layer => layer.layers

/-- A layer and the layers below it. -/
def Layer.layers : Layer → List Layer
  | .record ⟨fields⟩ => .record ⟨fields⟩ :: Record.fieldLayers fields
  | .union ⟨d, members⟩ => .union ⟨d, members⟩ :: Union.memberLayers members
  | .member ⟨d, value, body⟩ => .member ⟨d, value, body⟩ :: body.layers

def Record.fieldLayers : List (String × Schema) → List Layer
  | [] => []
  | (_, schema) :: rest => schema.layers ++ Record.fieldLayers rest

def Union.memberLayers : List (String × Member) → List Layer
  | [] => []
  | (_, ⟨_, _, body⟩) :: rest => body.layers ++ Union.memberLayers rest

end

theorem Record.fieldLayers_eq (fields : List (String × Schema)) :
    Record.fieldLayers fields = fields.flatMap fun f => f.2.layers := by
  induction fields with
  | nil => rfl
  | cons f rest ih => rw [Record.fieldLayers, ih, List.flatMap_cons]

theorem Union.memberLayers_eq (members : List (String × Member)) :
    Union.memberLayers members = members.flatMap fun e => e.2.body.layers := by
  induction members with
  | nil => rfl
  | cons e rest ih =>
      obtain ⟨key, ⟨d, value, body⟩⟩ := e
      rw [Union.memberLayers, ih, List.flatMap_cons]

theorem Layer.layers_record (r : Record) :
    (Layer.record r).layers = .record r :: r.fields.flatMap fun f => f.2.layers := by
  obtain ⟨fields⟩ := r
  rw [Layer.layers, Record.fieldLayers_eq]

theorem Layer.layers_union (u : Union) :
    (Layer.union u).layers =
      .union u :: u.members.flatMap fun e => e.2.body.layers := by
  obtain ⟨d, members⟩ := u
  rw [Layer.layers, Union.memberLayers_eq]

theorem Layer.layers_member (m : Member) :
    (Layer.member m).layers = .member m :: m.body.layers := by
  cases m
  rfl

theorem Layer.self_mem_layers (layer : Layer) : layer ∈ layer.layers := by
  rcases layer with r | u | m
  · rw [layers_record]
    exact List.mem_cons_self
  · rw [layers_union]
    exact List.mem_cons_self
  · rw [layers_member]
    exact List.mem_cons_self

/-- The layers of a field are layers of its record. -/
theorem Record.layers_of_mem {r : Record} {name : String} {s : Schema}
    (hs : (name, s) ∈ r.fields) :
    ∀ l ∈ s.layers, l ∈ (Layer.record r).layers := by
  intro l hl
  rw [Layer.layers_record]
  exact List.mem_cons_of_mem _ (List.mem_flatMap.mpr ⟨(name, s), hs, hl⟩)

/-- The layers of a member's body are layers of its union. -/
theorem Union.layers_of_mem {u : Union} {key : String} {m : Member}
    (hm : (key, m) ∈ u.members) :
    ∀ l ∈ m.body.layers, l ∈ (Layer.union u).layers := by
  intro l hl
  rw [Layer.layers_union]
  exact List.mem_cons_of_mem _ (List.mem_flatMap.mpr ⟨(key, m), hm, hl⟩)

theorem Member.layers_of_body (m : Member) :
    ∀ l ∈ m.body.layers, l ∈ (Layer.member m).layers := by
  intro l hl
  rw [Layer.layers_member]
  exact List.mem_cons_of_mem _ hl

/-- A union occurs in a schema, at whatever depth. -/
def Schema.HasUnion (schema : Schema) (u : Union) : Prop :=
  .union u ∈ schema.layers

/-- A member occurs on its own, as a body, or in a union. -/
def Schema.HasMember (schema : Schema) (m : Member) : Prop :=
  .member m ∈ schema.layers ∨ ∃ u key, schema.HasUnion u ∧ (key, m) ∈ u.members

/-- Every member belongs to a union and has that union's discriminator. -/
def Schema.Agreed (schema : Schema) : Prop :=
  (∀ m, Layer.member m ∉ schema.layers) ∧
    ∀ u, schema.HasUnion u → ∀ key m, (key, m) ∈ u.members →
      m.discriminator = u.discriminator

end JsonShape
