/-
# The schemas of a description

Schemas stand in media types, parameters and headers, among the components, and in other schemas.

* `Schema.inner`: the schemas that a schema is made of directly.
* `Response.schemaParts`, `Components.schemaParts`, … : the outermost schemas of each kind of part.
  Of an operation and of a path item they are those of bodies and responses; parameters may be
  references that are followed, so `PathItem.parameterParts` lists them apart.
-/
import ApiTypes.Model.Basic

namespace ApiTypes

/-- The schemas that a schema is made of directly. -/
def Schema.inner : Schema → List Schema
  | array items _ _ _ => items.toList
  | object properties _ additional _ =>
    properties.map Prod.snd ++ match additional with
      | .schema s => [s]
      | .unsaid | .allowed _ => []
  | composed allOf oneOf anyOf _ base _ => allOf ++ oneOf ++ anyOf ++ base.toList
  | reference _ _ | scalar _ _ | enumerated _ _ | unknown _ => []

/-- What a schema is made of is smaller. -/
theorem Schema.sizeOf_inner {s part : Schema} (h : part ∈ s.inner) : sizeOf part < sizeOf s := by
  cases s with
  | reference | scalar | enumerated | unknown => cases h
  | array items =>
    rw [inner, Option.mem_toList] at h
    subst h
    simp
    omega
  | object properties _ additional =>
    rcases List.mem_append.mp h with h | h
    · obtain ⟨e, he, rfl⟩ := List.mem_map.mp h
      have hlt := List.sizeOf_lt_of_mem he
      obtain ⟨name, s⟩ := e
      simp at hlt ⊢
      omega
    · cases additional with
      | unsaid | allowed => cases h
      | schema s =>
        rw [List.mem_singleton.mp h]
        simp
        omega
  | composed allOf oneOf anyOf _ base =>
    simp only [inner, List.mem_append, Option.mem_toList] at h
    rcases h with ((h | h) | h) | rfl
    · have hlt := List.sizeOf_lt_of_mem h
      simp
      omega
    · have hlt := List.sizeOf_lt_of_mem h
      simp
      omega
    · have hlt := List.sizeOf_lt_of_mem h
      simp
      omega
    · simp
      omega

/-- Induction along the schemas that a schema is made of. -/
theorem Schema.induction {motive : Schema → Prop}
    (step : ∀ s, (∀ part ∈ s.inner, motive part) → motive s) (s : Schema) : motive s :=
  step s fun part _ => induction step part
termination_by sizeOf s
decreasing_by exact sizeOf_inner ‹_›

/-- The schemas of a part that is not a reference. -/
def OrRef.schemaParts {α : Type} (schemas : α → List Schema) : OrRef α → List Schema
  | .ref _ => []
  | .item a => schemas a

/-- The schemas of the media types of a content. -/
def Content.schemaParts (c : Content) : List Schema := c.flatMap (·.2.schema.toList)

/-- The schemas of a value that is described by a schema or by its content. -/
def valueSchemas (schema : Option Schema) (content : Option Content) : List Schema :=
  schema.toList ++ Content.schemaParts (content.getD [])

/-- The schemas of the value of a parameter. -/
def Parameter.schemaParts (p : Parameter) : List Schema := valueSchemas p.schema p.content

/-- The schemas of the value of a header. -/
def Header.schemaParts (h : Header) : List Schema := valueSchemas h.schema h.content

/-- The schemas of the content of a body. -/
def RequestBody.schemaParts (b : RequestBody) : List Schema := Content.schemaParts b.content

/-- The schemas of the headers and of the content of a response. -/
def Response.schemaParts (r : Response) : List Schema :=
  r.headers.flatMap (·.2.schemaParts Header.schemaParts) ++ Content.schemaParts (r.content.getD [])

/-- The schemas of the body and of the responses of an operation. -/
def Operation.schemaParts (o : Operation) : List Schema :=
  o.requestBody.toList.flatMap (·.schemaParts RequestBody.schemaParts) ++
    o.responses.flatMap (·.2.schemaParts Response.schemaParts)

/-- The schemas of the bodies and responses of the operations of a path item. -/
def PathItem.schemaParts (item : PathItem) : List Schema :=
  item.operations.flatMap (·.2.schemaParts)

/-- The parameters of a path item and of its operations. -/
def PathItem.parameterParts (item : PathItem) : List (OrRef Parameter) :=
  item.parameters ++ item.operations.flatMap (·.2.parameters)

/-- The schemas of a collection of components. -/
def collectionSchemas {α : Type} (schemas : α → List Schema)
    (entries : Option (List (String × OrRef α))) : List Schema :=
  (entries.getD []).flatMap (·.2.schemaParts schemas)

/-- The schemas of the components that are no path items. -/
def Components.schemaParts (c : Components) : List Schema :=
  (c.schemas.getD []).map Prod.snd ++
    (collectionSchemas Response.schemaParts c.responses ++
      (collectionSchemas Parameter.schemaParts c.parameters ++
        (collectionSchemas RequestBody.schemaParts c.requestBodies ++
          collectionSchemas Header.schemaParts c.headers)))

end ApiTypes
