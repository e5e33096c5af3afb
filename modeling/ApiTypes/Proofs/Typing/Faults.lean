/-
# Where typing stops

A typing stops at the first part that cannot be typed, and the fault says which part that is: a
reference that leads nowhere, or a schema that is nested too deep.  The parts are typed under
pointers that are put together on the way down; `Placed` says for each kind of part that the
pointers of its references and of its schemas are places of some kind, and the lemmas say that the
faults of its typing are at such places.

* `Typing.Stops F t`: the faults at which a typing stops satisfy `F`; one lemma for each kind of
  step (`Stops.bind`, `Stops.within`, …).
* `Fault.Placed At`: the fault is of typing, and at a place that `At` knows.
* `Typing.stops_node` is the step by kinds of schemas, `Typing.stops_response` the one for
  payloads.
-/
import ApiTypes.Proofs.Typing.Outcome

namespace ApiTypes

/-! ## 1. Stopping -/

namespace Typing

variable {α β : Type} {F G : Fault → Prop}

/-- The faults at which a typing stops have a property. -/
def Stops (F : Fault → Prop) (t : Typing α) : Prop :=
  ∀ refs refs' e, ExceptT.run t refs = (.error e, refs') → F e

/-- The fault of a run from the start. -/
theorem Stops.of_run {t : Typing α} (h : Stops F t) {e : Fault} {refs : List Pointer}
    (hrun : t.run = (.error e, refs)) : F e :=
  h [] refs e hrun

theorem Stops.mono {t : Typing α} (h : Stops F t) (hG : ∀ e, F e → G e) : Stops G t :=
  fun refs refs' e hrun => hG e (h refs refs' e hrun)

theorem stops_pure (a : α) : Stops F (pure a : Typing α) := by
  intro refs refs' e h
  cases h

theorem stops_throw {e : Fault} (h : F e) : Stops F (throw e : Typing α) := by
  intro refs refs' e' hrun
  cases hrun
  exact h

/-- Two steps stop where the first does, or where the second does after a result of the first. -/
theorem Stops.bind {t : Typing α} {f : α → Typing β} (h : Stops F t)
    (hf : ∀ a, Gives t a → Stops F (f a)) : Stops F (t >>= f) := by
  intro refs refs' e hrun
  rw [ExceptT.run_bind] at hrun
  cases ht : ExceptT.run t refs with
  | mk result mid =>
    cases result with
    | error e' =>
      simp only [Bind.bind, StateT.bind, ht] at hrun
      cases hrun
      exact h refs _ e ht
    | ok a =>
      simp only [Bind.bind, StateT.bind, ht] at hrun
      exact hf a ⟨refs, mid, ht⟩ mid refs' e hrun

/-- A result that is put into something larger. -/
theorem Stops.bind_pure {t : Typing α} (h : Stops F t) (f : α → β) :
    Stops F (t >>= fun a => pure (f a)) :=
  h.bind fun _ _ => stops_pure _

theorem stops_lift {r : Except Fault α} (h : ∀ e, r = .error e → F e) : Stops F (lift r) := by
  cases r with
  | ok a => exact stops_pure a
  | error e => exact stops_throw (h e rfl)

theorem Stops.within {env : Environment} {depth : Nat} {location : Pointer}
    {inner : Nat → Typing α} (h : ∀ depth, Stops F (inner depth))
    (hlimit : F (.recursionLimit location env.config.maxDepth)) :
    Stops F (within env depth location inner) := by
  unfold Typing.within
  split
  · exact stops_throw hlimit
  · exact h (depth + 1)

theorem stops_mapM {f : α → Typing β} : ∀ {as : List α}, (∀ a ∈ as, Stops F (f a)) →
    Stops F (as.mapM f)
  | [], _ => by
    rw [List.mapM_nil]
    exact stops_pure []
  | a :: as, h => by
    rw [List.mapM_cons]
    refine (h a List.mem_cons_self).bind fun b _ => Stops.bind_pure ?_ _
    exact stops_mapM fun a ha => h a (List.mem_cons_of_mem _ ha)

end Typing

/-! ## 2. Places -/

/-- What is known of places: `At p none` says that `p` is one, and `At p (some r)` that the
reference `r` stands there. -/
abbrev Places := Pointer → Option String → Prop

/-- A fault of typing at a place.  An object of the wrong kind is not at the place of a reference
but where the reference leads. -/
def Fault.Placed (At : Places) : Fault → Prop
  | .unresolvable reference location => At location (some reference)
  | .recursionLimit location _ => At location none
  | .invalidObject _ _ => True
  | _ => False

/-- The schema at a pointer, the schemas in it and its references are in places. -/
inductive Schema.Placed (At : Places) : Pointer → Schema → Prop
  | reference {p : Pointer} {target : String} {t : Traits} (here : At p none)
      (ref : At p (some target)) : Placed At p (.reference target t)
  | unknown {p : Pointer} {t : Traits} (here : At p none) : Placed At p (.unknown t)
  | scalar {p : Pointer} {kinds : List ScalarKind} {t : Traits} (here : At p none) :
      Placed At p (.scalar kinds t)
  | enumerated {p : Pointer} {values : List Json} {t : Traits} (here : At p none) :
      Placed At p (.enumerated values t)
  | array {p : Pointer} {items : Option Schema} {least most : Option Nat} {t : Traits}
      (here : At p none) (inner : ∀ s, items = some s → Placed At (p.child "items") s) :
      Placed At p (.array items least most t)
  | object {p : Pointer} {properties : List (String × Schema)} {required : List String}
      {additional : Additional Schema} {t : Traits} (here : At p none)
      (props : ∀ q ∈ properties, Placed At ((p.child "properties").child q.1) q.2)
      (rest : ∀ s, additional = .schema s → Placed At (p.child "additionalProperties") s) :
      Placed At p (.object properties required additional t)
  | composed {p : Pointer} {allOf oneOf anyOf : List Schema} {d : Option Discriminator}
      {base : Option Schema} {t : Traits} (here : At p none)
      (all : ∀ i s, allOf[i]? = some s → Placed At ((p.child "allOf").item i) s)
      (one : ∀ i s, oneOf[i]? = some s → Placed At ((p.child "oneOf").item i) s)
      (any : ∀ i s, anyOf[i]? = some s → Placed At ((p.child "anyOf").item i) s)
      (own : ∀ s, base = some s → Placed At p s) :
      Placed At p (.composed allOf oneOf anyOf d base t)

theorem Schema.Placed.here {At : Places} {p : Pointer} {s : Schema} (h : s.Placed At p) :
    At p none := by
  cases h <;> assumption

section Parts

variable (At : Places)

/-- Named parts, each under its name below a pointer. -/
def PlacedEntries {α : Type} (Q : Pointer → α → Prop) (p : Pointer)
    (entries : List (String × α)) : Prop :=
  ∀ e ∈ entries, Q (p.child e.1) e.2

/-- A part in its place, or the place of a reference to one. -/
def OrRef.Placed {α : Type} (Q : Pointer → α → Prop) (p : Pointer) : OrRef α → Prop
  | .ref r => At p (some r.target)
  | .item a => Q p a

/-- The schema of the media type at a pointer is in its place. -/
def MediaType.Placed (p : Pointer) (m : MediaType) : Prop :=
  ∀ s, m.schema = some s → s.Placed At (p.child "schema")

/-- The content of the part at a pointer. -/
def Content.Placed (p : Pointer) (c : Content) : Prop :=
  PlacedEntries (MediaType.Placed At) (p.child "content") c

/-- A value that is described by a schema or by its content. -/
def PlacedValue (p : Pointer) (schema : Option Schema) (content : Option Content) : Prop :=
  (∀ s, schema = some s → s.Placed At (p.child "schema")) ∧
    ∀ c, content = some c → Content.Placed At p c

/-- The value of the header at a pointer is in its place. -/
def Header.Placed (p : Pointer) (h : Header) : Prop := PlacedValue At p h.schema h.content

/-- The headers and the content of the response at a pointer are in their places. -/
def Response.Placed (p : Pointer) (r : Response) : Prop :=
  PlacedEntries (OrRef.Placed At (Header.Placed At)) (p.child "headers") r.headers ∧
    ∀ c, r.content = some c → Content.Placed At p c

end Parts

section All

variable {At : Places}

mutual
/-- Where every pointer is a place, every schema is placed. -/
theorem Schema.placed_of_all (hall : ∀ p r, At p r) : ∀ (s : Schema) (p : Pointer), s.Placed At p
  | .reference _ _, _ => .reference (hall _ _) (hall _ _)
  | .unknown _, _ => .unknown (hall _ _)
  | .scalar _ _, _ => .scalar (hall _ _)
  | .enumerated _ _, _ => .enumerated (hall _ _)
  | .array none _ _ _, _ => .array (hall _ _) fun _ h => by cases h
  | .array (some items) _ _ _, _ => .array (hall _ _) fun s h => by
    cases h
    exact items.placed_of_all hall _
  | .object properties _ additional _, _ => by
    refine .object (hall _ _) (fun q hq => placed_of_all_properties hall properties q hq _) ?_
    intro s hs
    subst hs
    exact s.placed_of_all hall _
  | .composed allOf oneOf anyOf _ none _, _ => .composed (hall _ _)
    (fun _ s h => placed_of_all_list hall allOf s (List.mem_of_getElem? h) _)
    (fun _ s h => placed_of_all_list hall oneOf s (List.mem_of_getElem? h) _)
    (fun _ s h => placed_of_all_list hall anyOf s (List.mem_of_getElem? h) _)
    fun _ h => by cases h
  | .composed allOf oneOf anyOf _ (some base) _, _ => .composed (hall _ _)
    (fun _ s h => placed_of_all_list hall allOf s (List.mem_of_getElem? h) _)
    (fun _ s h => placed_of_all_list hall oneOf s (List.mem_of_getElem? h) _)
    (fun _ s h => placed_of_all_list hall anyOf s (List.mem_of_getElem? h) _)
    fun s h => by
      cases h
      exact base.placed_of_all hall _

theorem Schema.placed_of_all_list (hall : ∀ p r, At p r) :
    ∀ (ss : List Schema), ∀ s ∈ ss, ∀ p, s.Placed At p
  | [], _, h, _ => absurd h List.not_mem_nil
  | s :: rest, s', h, p => by
    rcases List.mem_cons.mp h with heq | h
    · rw [heq]
      exact s.placed_of_all hall p
    · exact placed_of_all_list hall rest s' h p

theorem Schema.placed_of_all_properties (hall : ∀ p r, At p r) :
    ∀ (properties : List (String × Schema)), ∀ q ∈ properties, ∀ p, q.2.Placed At p
  | [], _, h, _ => absurd h List.not_mem_nil
  | (_, s) :: rest, q, h, p => by
    rcases List.mem_cons.mp h with heq | h
    · rw [heq]
      exact s.placed_of_all hall p
    · exact placed_of_all_properties hall rest q h p
end

variable (hall : ∀ p r, At p r)

include hall

theorem placedValue_of_all {p : Pointer} {schema : Option Schema} {content : Option Content} :
    PlacedValue At p schema content :=
  ⟨fun s _ => s.placed_of_all hall _, fun _ _ _ _ s _ => s.placed_of_all hall _⟩

theorem OrRef.placed_of_all {α : Type} {Q : Pointer → α → Prop} (hQ : ∀ p a, Q p a) {p : Pointer}
    (part : OrRef α) : part.Placed At Q p := by
  cases part with
  | ref r => exact hall _ _
  | item a => exact hQ p a

theorem Response.placed_of_all {p : Pointer} (r : Response) : r.Placed At p :=
  ⟨fun e _ => e.2.placed_of_all hall fun _ _ => placedValue_of_all hall,
    fun _ _ _ _ s _ => s.placed_of_all hall _⟩

end All

namespace Typing

variable {env : Environment} {At : Places}

/-! ## 3. References -/

theorem error_of_canonical {r : Resolver} {target : String} {location : Pointer} {e : Fault}
    (h : r.canonical target location = .error e) : e = .unresolvable target location := by
  unfold Resolver.canonical at h
  split at h
  · cases h
    rfl
  · split at h
    · cases h
    · cases h
      rfl

/-- A reference stops at its own place. -/
theorem stops_reference {target : String} {location : Pointer} (h : At location (some target)) :
    Stops (Fault.Placed At) (reference env target location) := by
  refine Stops.bind (stops_lift fun e he => ?_) fun p _ => ?_
  · rw [error_of_canonical he]
    exact h
  · intro refs refs' e hrun
    cases hrun

/-! ## 4. Schemas -/

section Schemas

theorem stops_arrange {config : Config} {d : Option Discriminator}
    {variants : List (Typing TypeExpr)} {F : Fault → Prop} {step : Nat × Option String}
    (hv : ∀ t ∈ variants, Stops F t) : Stops F (arrange config d variants step) := by
  obtain ⟨i, tag⟩ := step
  refine Stops.bind ?_ fun variant _ => ?_
  · rw [List.getD_eq_getElem?_getD]
    cases hget : variants[i]? with
    | none => exact stops_pure _
    | some t => exact hv t (List.mem_of_getElem? hget)
  · split
    · exact stops_pure _
    · exact stops_pure _

theorem stops_alternatives {d : Option Discriminator} {members : List Schema}
    {variants : List (Typing TypeExpr)} {F : Fault → Prop} (hv : ∀ t ∈ variants, Stops F t) :
    Stops F (alternatives env d members variants) := by
  unfold alternatives
  split
  · exact stops_pure _
  · exact (stops_mapM fun _ _ => stops_arrange hv).bind_pure _

mutual
/-- **The faults of a schema are at the places in it.** -/
theorem stops_node {depth : Nat} {p : Pointer} : ∀ (s : Schema), s.Placed At p →
    Stops (Fault.Placed At) (node env depth p s)
  | .reference target traits, h => by
    cases h with
    | reference _ ref => exact (stops_reference ref).bind_pure _
  | .unknown _, _ => stops_pure _
  | .scalar _ _, _ => stops_pure _
  | .enumerated _ _, _ => stops_pure _
  | .array none _ _ _, _ => stops_pure _
  | .array (some items) _ _ _, h => by
    cases h with
    | array _ inner =>
      have hitems := inner items rfl
      rw [node]
      exact (Stops.within (fun _ => stops_node items hitems) hitems.here).bind_pure _
  | .object properties required additional traits, h => by
    cases h with
    | object _ props rest =>
      rw [node]
      refine (stops_propertyList properties props).bind fun members _ => ?_
      exact (stops_additionalOf additional rest).bind_pure _
  | .composed allOf oneOf anyOf d base traits, h => by
    cases h with
    | composed here all one any own =>
      rw [node]
      refine Stops.bind (stops_mapM (stops_nodes allOf fun i s hs => ?_)) fun _ _ => ?_
      · rw [Nat.zero_add]
        exact all i s hs
      refine Stops.bind (stops_alternatives (stops_nodes oneOf fun i s hs => ?_)) fun _ _ => ?_
      · rw [Nat.zero_add]
        exact one i s hs
      refine Stops.bind (stops_alternatives (stops_nodes anyOf fun i s hs => ?_)) fun _ _ => ?_
      · rw [Nat.zero_add]
        exact any i s hs
      cases base with
      | none => exact (stops_pure _).bind_pure _
      | some base =>
        have hbase := own base rfl
        exact (Stops.within (fun _ => stops_node base hbase) here).bind fun _ _ =>
          (stops_pure _).bind_pure _

theorem stops_nodes {depth : Nat} {p : Pointer} : ∀ (ss : List Schema) {i : Nat},
    (∀ k (s : Schema), ss[k]? = some s → s.Placed At (p.item (i + k))) →
    ∀ t ∈ nodes env depth p i ss, Stops (Fault.Placed At) t
  | [], _, _, t, ht => by
    rw [nodes] at ht
    exact absurd ht List.not_mem_nil
  | s :: rest, i, h, t, ht => by
    rw [nodes] at ht
    rcases List.mem_cons.mp ht with rfl | ht
    · have hs := h 0 s rfl
      rw [Nat.add_zero] at hs
      exact Stops.within (fun _ => stops_node s hs) hs.here
    · refine stops_nodes rest (fun k s' hs' => ?_) t ht
      have hnext := h (k + 1) s' hs'
      rwa [← Nat.add_assoc, Nat.add_right_comm] at hnext

theorem stops_propertyList {depth : Nat} {p : Pointer} {required : List String} :
    ∀ (properties : List (String × Schema)),
      (∀ q ∈ properties, q.2.Placed At (p.child q.1)) →
      Stops (Fault.Placed At) (propertyList env depth p required properties)
  | [], _ => stops_pure _
  | (name, s) :: rest, h => by
    have hs : s.Placed At (p.child name) := h _ List.mem_cons_self
    rw [propertyList]
    refine Stops.bind (Stops.within (fun _ => stops_node s hs) hs.here) fun _ _ => ?_
    exact (stops_propertyList rest fun q hq => h q (List.mem_cons_of_mem _ hq)).bind_pure _

theorem stops_additionalOf {depth : Nat} {p : Pointer} : ∀ (additional : Additional Schema),
    (∀ s, additional = .schema s → s.Placed At p) →
    Stops (Fault.Placed At) (additionalOf env depth p additional)
  | .unsaid, _ => stops_pure _
  | .allowed _, _ => stops_pure _
  | .schema s, h => by
    have hs := h s rfl
    rw [additionalOf]
    exact (Stops.within (fun _ => stops_node s hs) hs.here).bind_pure _
end

theorem stops_schema {depth : Nat} {p : Pointer} {s : Schema} (h : s.Placed At p) :
    Stops (Fault.Placed At) (schema env depth p s) :=
  Stops.within (fun _ => stops_node s h) h.here

end Schemas

/-! ## 5. Collections of parts -/

section Collections

variable {α β : Type} {F : Fault → Prop}

theorem stops_eachItem {base : Pointer} {type : Pointer → α → Typing β} {items : List α}
    (h : ∀ i a, items[i]? = some a → Stops F (type (base.item i) a)) :
    Stops F (eachItem base type items) := by
  refine stops_mapM fun ai hai => ?_
  exact h ai.2 ai.1 (List.mem_zipIdx_iff_getElem?.mp hai)

theorem stops_eachNamed {base : Pointer} {type : String → Pointer → α → Typing β}
    {entries : List (String × α)} (h : ∀ e ∈ entries, Stops F (type e.1 (base.child e.1) e.2)) :
    Stops F (eachNamed env base type entries) :=
  stops_mapM fun e he => h e (mem_ordered.mp he)

theorem stops_referenceMember {name target : String} {p : Pointer} {doc : Option String}
    (h : At p (some target)) : Stops (Fault.Placed At) (referenceMember env name p target doc) :=
  (stops_reference h).bind_pure _

end Collections

/-! ## 6. Payloads -/

theorem stops_mediaType {p : Pointer} {m : MediaType} (h : m.Placed At p) :
    Stops (Fault.Placed At) (mediaType env p m) := by
  unfold mediaType
  split
  · rename_i s hs
    exact stops_schema (h s hs)
  · exact stops_pure _

theorem stops_content {role : ContentRole} {p : Pointer} {c : Content}
    (h : Content.Placed At p c) : Stops (Fault.Placed At) (content env role p c) := by
  unfold content
  split
  · exact stops_pure _
  · split
    · exact stops_pure _
    · exact (stops_mapM fun e he => stops_mediaType (h e he)).bind_pure _

theorem stops_schemaOrContent {p : Pointer} {s : Option Schema} {c : Option Content}
    {byContent : Content → Typing TypeExpr} {otherwise : TypeExpr} (h : PlacedValue At p s c)
    (hc : ∀ c, Content.Placed At p c → Stops (Fault.Placed At) (byContent c)) :
    Stops (Fault.Placed At) (schemaOrContent env p s c byContent otherwise) := by
  cases s with
  | some s => exact stops_schema (h.1 s rfl)
  | none =>
    cases c with
    | some c => exact hc c (h.2 c rfl)
    | none => exact stops_pure _

theorem stops_header {p : Pointer} {hd : Header} (h : hd.Placed At p) :
    Stops (Fault.Placed At) (header env p hd) := by
  refine stops_schemaOrContent h fun c hc => Stops.bind_pure ?_ _
  exact stops_eachNamed fun e he => (stops_mediaType (hc e he)).bind_pure _

theorem stops_headerMember {name : String} {p : Pointer} {part : OrRef Header}
    (h : part.Placed At (Header.Placed At) p) :
    Stops (Fault.Placed At) (headerMember env name p part) := by
  cases part with
  | ref r => exact stops_referenceMember h
  | item hd => exact (stops_header h).bind_pure _

/-- **The faults of a response are at the places in it.** -/
theorem stops_response {p : Pointer} {r : Response} (h : r.Placed At p) :
    Stops (Fault.Placed At) (response env p r) := by
  unfold response
  split
  · exact stops_pure _
  · rename_i c hc
    refine (stops_content (h.2 c hc)).bind fun body _ => ?_
    split
    · exact stops_pure _
    · exact (stops_eachNamed fun e he => stops_headerMember (h.1 e he)).bind_pure _

end Typing

end ApiTypes
