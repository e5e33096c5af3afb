/-
# Where the typing of operations stops

Operations have parameters, a body and responses; parameters and path items may be references, and
what a chain of references leads to is typed under the pointer at its end.  A chain that breaks off
stops at the last of its references.

* `Environment.Chains` says that the references in a document are known places; with it,
  `Typing.placed_of_resolveAs` says where a chain stops.
* `Typing.stops_operation`, `Typing.stops_pathRecord` and `Typing.stops_components` are the steps.
-/
import ApiTypes.Proofs.Typing.Faults
import ApiTypes.Proofs.Typing.OperationParts

namespace ApiTypes

/-! ## 1. Places -/

/-- A reference that stands in a document is known in its place. -/
def Environment.Chains (env : Environment) (At : Places) : Prop :=
  ∀ p v target, p.find? env.resolver.root = some v → Resolver.next? v = some target →
    At p (some target)

/-- The items of a list, each at its position below a pointer. -/
def PlacedItems {α : Type} (Q : Pointer → α → Prop) (p : Pointer) (items : List α) : Prop :=
  ∀ i a, items[i]? = some a → Q (p.item i) a

section Parts

variable (env : Environment) (At : Places)

/-- The value of the parameter at a pointer is in its place. -/
def Parameter.Placed (p : Pointer) (param : Parameter) : Prop :=
  PlacedValue At p param.schema param.content

/-- A parameter in its place, or a reference with the parameter that it leads to. -/
def PlacedParameter (p : Pointer) : OrRef Parameter → Prop
  | .ref r => At p (some r.target) ∧ ∀ q param,
      env.resolver.resolveAs Decode.parameter r.target p = .ok (q, param) → param.Placed At q
  | .item param => param.Placed At p

/-- The content of the body at a pointer is in its place. -/
def RequestBody.Placed (p : Pointer) (b : RequestBody) : Prop := Content.Placed At p b.content

/-- The parts of the operation at a pointer are in their places. -/
structure Operation.Placed (p : Pointer) (o : Operation) : Prop where
  parameters : PlacedItems (PlacedParameter env At) (p.child "parameters") o.parameters
  body : ∀ b, o.requestBody = some b →
    b.Placed At (RequestBody.Placed At) (p.child "requestBody")
  responses : PlacedEntries (OrRef.Placed At (Response.Placed At)) (p.child "responses") o.responses

/-- The parts of the path item at a pointer are in their places. -/
structure PathItem.Placed (p : Pointer) (item : PathItem) : Prop where
  parameters : PlacedItems (PlacedParameter env At) (p.child "parameters") item.parameters
  operations : ∀ o ∈ item.operations, o.2.Placed env At (p.child o.1.name)

/-- A collection of the components. -/
def PlacedCollection {α : Type} (Q : Pointer → α → Prop) (name : String)
    (entries : Option (List (String × α))) : Prop :=
  PlacedEntries Q ((Pointer.root.child "components").child name) (entries.getD [])

/-- The components are in the places that their names give them. -/
structure Components.Placed (c : Components) : Prop where
  schemas : PlacedCollection (Schema.Placed At) "schemas" c.schemas
  responses : PlacedCollection (OrRef.Placed At (Response.Placed At)) "responses" c.responses
  parameters : PlacedCollection (OrRef.Placed At (Parameter.Placed At)) "parameters" c.parameters
  bodies : PlacedCollection (OrRef.Placed At (RequestBody.Placed At)) "requestBodies"
    c.requestBodies
  headers : PlacedCollection (OrRef.Placed At (Header.Placed At)) "headers" c.headers
  pathItems : PlacedCollection (OrRef.Placed At (PathItem.Placed env At)) "pathItems" c.pathItems

end Parts

section All

variable {env : Environment} {At : Places} (hall : ∀ p r, At p r)

include hall

theorem placedParameter_of_all {p : Pointer} (part : OrRef Parameter) :
    PlacedParameter env At p part := by
  cases part with
  | ref r => exact ⟨hall _ _, fun _ _ _ => placedValue_of_all hall⟩
  | item param => exact placedValue_of_all hall

theorem placedBody_of_all {p : Pointer} (b : RequestBody) : b.Placed At p :=
  fun _ _ s _ => s.placed_of_all hall _

/-- Where every pointer is a place, every path item is placed. -/
theorem PathItem.placed_of_all {p : Pointer} (item : PathItem) : item.Placed env At p where
  parameters _ part _ := placedParameter_of_all hall part
  operations _ _ :=
    { parameters := fun _ part _ => placedParameter_of_all hall part
      body := fun b _ => b.placed_of_all hall fun _ b => placedBody_of_all hall b
      responses := fun e _ => e.2.placed_of_all hall fun _ r => r.placed_of_all hall }

/-- Where every pointer is a place, the components are placed. -/
theorem Components.placed_of_all (c : Components) : c.Placed env At where
  schemas e _ := e.2.placed_of_all hall _
  responses e _ := e.2.placed_of_all hall fun _ r => r.placed_of_all hall
  parameters e _ := e.2.placed_of_all hall fun _ _ => placedValue_of_all hall
  bodies e _ := e.2.placed_of_all hall fun _ b => placedBody_of_all hall b
  headers e _ := e.2.placed_of_all hall fun _ _ => placedValue_of_all hall
  pathItems e _ := e.2.placed_of_all hall fun _ item => item.placed_of_all hall

end All

namespace Typing

variable {env : Environment} {At : Places}

/-! ## 2. Chains of references -/

section Chains

variable (hchains : env.Chains At)

include hchains

/-- A chain stops at its first reference or at a node that it has come to. -/
theorem placed_of_follow {α : Type} {decode : Decoder α} {e : Fault} : ∀ {steps : Nat}
    {seen : List Pointer} {target : String} {location : Pointer}, At location (some target) →
    env.resolver.follow decode steps seen target location = .error e → e.Placed At
  | 0, _, _, _, hat, h => by
    cases h
    exact hat
  | steps + 1, _, target, location, hat, h => by
    unfold Resolver.follow at h
    split at h
    · rename_i hresolve
      cases h
      unfold Resolver.resolve at hresolve
      split at hresolve
      · rename_i hcanonical
        cases hresolve
        rw [error_of_canonical hcanonical]
        exact hat
      · split at hresolve
        · cases hresolve
        · cases hresolve
          exact hat
    · rename_i q v hresolve
      split at h
      · cases h
        exact hat
      · split at h
        · rename_i next hnext
          exact placed_of_follow (hchains q v next (Resolver.find_of_resolve hresolve) hnext) h
        · split at h
          · cases h
          · cases h
            trivial

/-- **A chain of references stops at one of its references.** -/
theorem placed_of_resolveAs {α : Type} {decode : Decoder α} {e : Fault} {target : String}
    {location : Pointer} (hat : At location (some target))
    (h : env.resolver.resolveAs decode target location = .error e) : e.Placed At :=
  placed_of_follow hchains hat h

/-! ## 3. Parameters -/

theorem stops_effective {p : Pointer} {part : OrRef Parameter} (h : PlacedParameter env At p part) :
    Stops (Fault.Placed At) (effective env p part) := by
  cases part with
  | item param => exact stops_pure _
  | ref r =>
    refine (stops_reference h.1).bind fun target _ => Stops.bind_pure ?_ _
    exact stops_lift fun e he => placed_of_resolveAs hchains h.1 he

omit hchains in
theorem placed_effective {p : Pointer} {part : OrRef Parameter} {e : EffectiveParameter}
    (h : PlacedParameter env At p part) (hgives : Gives (effective env p part) e) :
    e.parameter.Placed At e.pointer := by
  cases part with
  | item param =>
    rw [hgives.of_pure]
    exact h
  | ref r =>
    obtain ⟨_, _, hgives⟩ := hgives.of_bind
    obtain ⟨⟨q, param⟩, hparam, hgives⟩ := hgives.of_bind
    rw [hgives.of_pure]
    exact h.2 q param hparam.of_lift

omit hchains in
theorem placed_eachItem {base : Pointer} {parts : List (OrRef Parameter)}
    {es : List EffectiveParameter} (h : PlacedItems (PlacedParameter env At) base parts)
    (hgives : Gives (eachItem base (effective env) parts) es) :
    ∀ e ∈ es, e.parameter.Placed At e.pointer := by
  intro e he
  obtain ⟨⟨part, i⟩, hpart, hstep⟩ := exists_of_forall₂ hgives.of_mapM he
  exact placed_effective (h i part (List.mem_zipIdx_iff_getElem?.mp hpart)) hstep

theorem stops_eachParameter {base : Pointer} {parts : List (OrRef Parameter)}
    (h : PlacedItems (PlacedParameter env At) base parts) :
    Stops (Fault.Placed At) (eachItem base (effective env) parts) :=
  stops_eachItem fun i part hpart => stops_effective hchains (h i part hpart)

theorem stops_effectiveParameters {site : Site} {location : Pointer} {o : Operation}
    (hown : PlacedItems (PlacedParameter env At) (location.child "parameters") o.parameters)
    (hshared : PlacedItems (PlacedParameter env At) (site.pointer.child "parameters")
      site.shared) :
    Stops (Fault.Placed At) (effectiveParameters env site location o) :=
  (stops_eachParameter hchains hown).bind fun _ _ =>
    (stops_eachParameter hchains hshared).bind_pure _

omit hchains in
theorem placed_effectiveParameters {site : Site} {location : Pointer} {o : Operation}
    {es : List EffectiveParameter}
    (hown : PlacedItems (PlacedParameter env At) (location.child "parameters") o.parameters)
    (hshared : PlacedItems (PlacedParameter env At) (site.pointer.child "parameters") site.shared)
    (hgives : Gives (effectiveParameters env site location o) es) :
    ∀ e ∈ es, e.parameter.Placed At e.pointer := by
  obtain ⟨own, ho, hgives⟩ := hgives.of_bind
  obtain ⟨shared, hs, hgives⟩ := hgives.of_bind
  rw [hgives.of_pure]
  intro e he
  rcases List.mem_append.mp he with he | he
  · exact placed_eachItem hown ho e he
  · exact placed_eachItem hshared hs e (List.mem_of_mem_filter he)

omit hchains in
theorem stops_parameter {p : Pointer} {param : Parameter} (h : param.Placed At p) :
    Stops (Fault.Placed At) (parameter env p param) :=
  stops_schemaOrContent h fun _ hc => stops_content hc

omit hchains in
theorem stops_parameters {es : List EffectiveParameter}
    (h : ∀ e ∈ es, e.parameter.Placed At e.pointer) :
    Stops (Fault.Placed At) (parameters env es) := by
  refine Stops.bind (stops_mapM fun e he => ?_) fun _ _ => ?_
  · exact (stops_parameter (h e (List.mem_of_mem_filter he))).bind_pure _
  · simp only
    split
    · exact stops_pure _
    · exact stops_pure _

/-! ## 4. Operations -/

theorem stops_bodyMember {p : Pointer} {body : Option (OrRef RequestBody)}
    (h : ∀ b, body = some b → b.Placed At (RequestBody.Placed At) p) :
    Stops (Fault.Placed At) (bodyMember env p body) := by
  unfold bodyMember
  split
  · exact stops_pure _
  · rename_i r
    have hat : At p (some r.target) := h _ rfl
    refine (stops_reference hat).bind fun _ _ => Stops.bind_pure ?_ _
    exact stops_lift fun e he => placed_of_resolveAs hchains hat he
  · rename_i b
    exact (stops_content (h _ rfl)).bind_pure _

omit hchains in
theorem stops_responseMember {code : String} {p : Pointer} {part : OrRef Response}
    (h : part.Placed At (Response.Placed At) p) :
    Stops (Fault.Placed At) (responseMember env code p part) := by
  cases part with
  | ref r => exact stops_referenceMember h
  | item r => exact (stops_response h).bind_pure _

/-- **The faults of an operation are at the places in it**, in those of the parameters that it
shares, and in what they refer to. -/
theorem stops_operation {site : Site} {method : Method} {o : Operation}
    (ho : o.Placed env At (site.pointer.child method.name))
    (hshared : PlacedItems (PlacedParameter env At) (site.pointer.child "parameters")
      site.shared) :
    Stops (Fault.Placed At) (operation env site method o) := by
  refine (stops_effectiveParameters hchains ho.parameters hshared).bind fun es hes => ?_
  have hplaced := placed_effectiveParameters ho.parameters hshared hes
  refine Stops.bind (stops_mapM fun e he => ?_) fun _ _ => ?_
  · exact (stops_parameter (hplaced e (List.mem_of_mem_filter he))).bind_pure _
  refine (stops_parameters hplaced).bind fun _ _ => ?_
  refine (stops_bodyMember hchains ho.body).bind fun _ _ => Stops.bind_pure ?_ _
  exact stops_eachNamed fun e he => stops_responseMember (ho.responses e he)

/-! ## 5. Path items -/

theorem stops_operationsOf {kind : RouteKind} {path : String} {p : Pointer} {item : PathItem}
    (h : item.Placed env At p) : Stops (Fault.Placed At) (operationsOf env kind path p item) :=
  stops_mapM fun o ho => stops_operation hchains (h.operations o ho) h.parameters

theorem stops_pathRecord {p : Pointer} {item : PathItem} {os : List TypedOperation}
    {shown : TypedOperation → TypeExpr} (h : item.Placed env At p) :
    Stops (Fault.Placed At) (pathRecord env p item os shown) := by
  unfold pathRecord
  simp only
  split
  · exact stops_pure _
  · refine Stops.bind_pure ?_ _
    exact (stops_eachParameter hchains h.parameters).bind fun es hes =>
      stops_parameters (placed_eachItem h.parameters hes)

theorem stops_pathItemAt {target : String} {p : Pointer} (h : At p (some target)) :
    Stops (Fault.Placed At) (pathItemAt env target p) :=
  (stops_reference h).bind fun _ _ =>
    stops_lift fun _ he => placed_of_resolveAs hchains h he

theorem stops_pathItemComponent {name : String} {p : Pointer} {item : PathItem}
    (h : item.Placed env At p) : Stops (Fault.Placed At) (pathItemComponent env name p item) :=
  (stops_operationsOf hchains h).bind fun _ _ => (stops_pathRecord hchains h).bind_pure _

end Chains

/-! ## 6. Components -/

section Components

variable {α : Type} {Q : Pointer → α → Prop}
  {type : String → Pointer → α → Typing (Member TypeExpr)}

theorem stops_collection {name : String} {entries : Option (List (String × α))}
    (htype : ∀ name p a, Q p a → Stops (Fault.Placed At) (type name p a))
    (h : PlacedCollection Q name entries) :
    Stops (Fault.Placed At) (collection env name type entries) := by
  cases entries with
  | none => exact stops_pure _
  | some es => exact (stops_eachNamed fun e he => htype _ _ _ (h e he)).bind_pure _

theorem stops_componentOrRef (htype : ∀ name p a, Q p a → Stops (Fault.Placed At) (type name p a))
    (name : String) (p : Pointer) (part : OrRef α) (h : part.Placed At Q p) :
    Stops (Fault.Placed At) (componentOrRef env type name p part) := by
  cases part with
  | ref r => exact stops_referenceMember h
  | item a => exact htype name p a h

end Components

/-- **The faults of the components are at the places in them.** -/
theorem stops_components (hchains : env.Chains At) {c : Components} (h : c.Placed env At) :
    Stops (Fault.Placed At) (components env c) := by
  refine Stops.bind (stops_collection (fun _ _ _ hs => ?_) h.schemas) fun _ _ => ?_
  · exact (stops_schema hs).bind_pure _
  refine Stops.bind (stops_collection (stops_componentOrRef fun _ _ _ hr => ?_) h.responses)
    fun _ _ => ?_
  · exact (stops_response hr).bind_pure _
  refine Stops.bind (stops_collection (stops_componentOrRef fun _ _ _ hparam => ?_) h.parameters)
    fun _ _ => ?_
  · exact (stops_parameter hparam).bind_pure _
  refine Stops.bind (stops_collection (stops_componentOrRef fun _ _ _ hb => ?_) h.bodies)
    fun _ _ => ?_
  · exact (stops_content hb).bind_pure _
  refine Stops.bind (stops_collection (stops_componentOrRef fun _ _ _ hd => ?_) h.headers)
    fun _ _ => ?_
  · exact (stops_header hd).bind_pure _
  refine Stops.bind_pure (stops_collection (stops_componentOrRef fun _ _ _ hi => ?_) h.pathItems) _
  exact stops_pathItemComponent hchains hi

end Typing

end ApiTypes
