/-
# Parts of a description have names of their own

The parts of a description are read from objects whose keys are not repeated, so no collection
of named parts has a name twice, and no schema in them lists a property twice.  For each kind
of part `UniqueNames` says so of the part and of everything in it, and one lemma for each
decoder says that what it reads is so.

* `Decode.ensures_spec` is the statement for whole descriptions.
-/
import ApiTypes.Model.Decode
import ApiTypes.Proofs.Decoder
import ApiTypes.Proofs.Schema.Names

namespace ApiTypes

/-! ## 1. Parts -/

/-- A part that stands in its place, and is not a reference, has a property. -/
def OrRef.All {α : Type} (Q : α → Prop) (part : OrRef α) : Prop := ∀ a, part = .item a → Q a

/-- The schema of a media type lists no property twice. -/
def MediaType.UniqueNames (m : MediaType) : Prop := ∀ s, m.schema = some s → s.UniqueNames

/-- No media type stands twice in a content, and their schemas are alike. -/
def Content.UniqueNames (c : Content) : Prop := UniqueEntries MediaType.UniqueNames c

/-- The same of a value that is described by a schema or by its content. -/
def UniqueValue (schema : Option Schema) (content : Option Content) : Prop :=
  (∀ s, schema = some s → s.UniqueNames) ∧ ∀ c, content = some c → Content.UniqueNames c

/-- The value of a parameter has names of its own. -/
def Parameter.UniqueNames (p : Parameter) : Prop := UniqueValue p.schema p.content

/-- The content of a body has names of its own. -/
def RequestBody.UniqueNames (b : RequestBody) : Prop := Content.UniqueNames b.content

/-- The value of a header has names of its own. -/
def Header.UniqueNames (h : Header) : Prop := UniqueValue h.schema h.content

/-- No header stands twice in a response, and its headers and content have names of their own. -/
def Response.UniqueNames (r : Response) : Prop :=
  UniqueEntries (OrRef.All Header.UniqueNames) r.headers ∧
    ∀ c, r.content = some c → Content.UniqueNames c

/-- No status stands twice in an operation, and its parameters, body and responses have names of
their own. -/
def Operation.UniqueNames (o : Operation) : Prop :=
  (∀ p ∈ o.parameters, p.All Parameter.UniqueNames) ∧
    (∀ b, o.requestBody = some b → b.All RequestBody.UniqueNames) ∧
    UniqueEntries (OrRef.All Response.UniqueNames) o.responses

/-- The same of the operation of a method, if there is one. -/
def UniqueOperation (o : Option Operation) : Prop := ∀ a, o = some a → a.UniqueNames

/-- The operations and the shared parameters of a path item have names of their own. -/
def PathItem.UniqueNames (p : PathItem) : Prop :=
  UniqueOperation p.get ∧ UniqueOperation p.put ∧ UniqueOperation p.post ∧
    UniqueOperation p.delete ∧ UniqueOperation p.options ∧ UniqueOperation p.head ∧
    UniqueOperation p.patch ∧ UniqueOperation p.trace ∧
    ∀ q ∈ p.parameters, q.All Parameter.UniqueNames

/-- The same of a collection of named parts, if there is one. -/
def UniqueCollection {α : Type} (Q : α → Prop) (entries : Option (List (String × α))) : Prop :=
  ∀ es, entries = some es → UniqueEntries Q es

/-- No collection of the components has a name twice, and the components have names of their own. -/
def Components.UniqueNames (c : Components) : Prop :=
  UniqueCollection Schema.UniqueNames c.schemas ∧
    UniqueCollection (OrRef.All Response.UniqueNames) c.responses ∧
    UniqueCollection (OrRef.All Parameter.UniqueNames) c.parameters ∧
    UniqueCollection (OrRef.All RequestBody.UniqueNames) c.requestBodies ∧
    UniqueCollection (OrRef.All Header.UniqueNames) c.headers ∧
    UniqueCollection (OrRef.All PathItem.UniqueNames) c.pathItems

/-- The collections of the components by their names, each with the names of its parts. -/
def Components.collections (c : Components) : List (String × Option (List String)) :=
  [("schemas", c.schemas.map (·.map Prod.fst)), ("responses", c.responses.map (·.map Prod.fst)),
    ("parameters", c.parameters.map (·.map Prod.fst)),
    ("requestBodies", c.requestBodies.map (·.map Prod.fst)),
    ("headers", c.headers.map (·.map Prod.fst)), ("pathItems", c.pathItems.map (·.map Prod.fst))]

/-- The names of the collections. -/
def Components.kinds : List String :=
  ["schemas", "responses", "parameters", "requestBodies", "headers", "pathItems"]

theorem Components.names_collections (c : Components) :
    c.collections.map Prod.fst = Components.kinds :=
  rfl

theorem Components.UniqueNames.collections {c : Components} (h : c.UniqueNames) :
    ∀ k ∈ c.collections, ∀ names, k.2 = some names → names.Nodup := by
  have hnames : ∀ {α : Type} {Q : α → Prop} {entries : Option (List (String × α))},
      UniqueCollection Q entries → ∀ names, entries.map (·.map Prod.fst) = some names →
        names.Nodup := by
    intro α Q entries hu names hsome
    obtain ⟨es, hes, rfl⟩ := Option.map_eq_some_iff.mp hsome
    exact (hu es hes).names
  obtain ⟨h1, h2, h3, h4, h5, h6⟩ := h
  simp only [Components.collections, List.forall_mem_cons, List.not_mem_nil, false_implies,
    implies_true, and_true]
  exact ⟨hnames h1, hnames h2, hnames h3, hnames h4, hnames h5, hnames h6⟩

/-- No path and no webhook stands twice in a description, and all of its parts have names of their
own. -/
def Spec.UniqueNames (s : Spec) : Prop :=
  UniqueCollection PathItem.UniqueNames s.paths ∧
    UniqueCollection (OrRef.All PathItem.UniqueNames) s.webhooks ∧
    ∀ c, s.components = some c → c.UniqueNames

theorem UniqueCollection.nodup {α : Type} {Q : α → Prop} {entries : Option (List (String × α))}
    (h : UniqueCollection Q entries) : ((entries.getD []).map Prod.fst).Nodup := by
  cases entries with
  | none => exact List.nodup_nil
  | some es => exact (h es rfl).names

theorem Spec.UniqueNames.components {s : Spec} (h : s.UniqueNames) :
    (s.components.getD {}).UniqueNames := by
  cases hs : s.components with
  | none => simp [Components.UniqueNames, UniqueCollection]
  | some c => exact h.2.2 c hs

theorem PathItem.UniqueNames.operations {p : PathItem} (h : p.UniqueNames) :
    ∀ o ∈ p.operations, o.2.UniqueNames := by
  obtain ⟨h1, h2, h3, h4, h5, h6, h7, h8, _⟩ := h
  intro o ho
  obtain ⟨⟨m, o'⟩, hmem, heq⟩ := List.mem_filterMap.mp ho
  obtain ⟨a, rfl, rfl⟩ := Option.map_eq_some_iff.mp heq
  simp only [List.mem_cons, List.not_mem_nil, or_false, Prod.mk.injEq] at hmem
  rcases hmem with ⟨_, h⟩ | ⟨_, h⟩ | ⟨_, h⟩ | ⟨_, h⟩ | ⟨_, h⟩ | ⟨_, h⟩ | ⟨_, h⟩ | ⟨_, h⟩
  · exact h1 a h.symm
  · exact h2 a h.symm
  · exact h3 a h.symm
  · exact h4 a h.symm
  · exact h5 a h.symm
  · exact h6 a h.symm
  · exact h7 a h.symm
  · exact h8 a h.symm

theorem PathItem.UniqueNames.parameters {p : PathItem} (h : p.UniqueNames) :
    ∀ q ∈ p.parameters, q.All Parameter.UniqueNames := by
  obtain ⟨_, _, _, _, _, _, _, _, h⟩ := h
  exact h

/-- The operations of a path item have different methods, none of them called as the parameters
are. -/
theorem PathItem.nodup_methods (item : PathItem) :
    ((item.operations.map fun o => o.1.name) ++ ["parameters"]).Nodup := by
  have hsub : ∀ l : List (Method × Option Operation),
      ((l.filterMap fun e => e.2.map (e.1, ·)).map fun o => o.1.name).Sublist
        (l.map fun o => o.1.name) := by
    intro l
    induction l with
    | nil => exact List.Sublist.slnil
    | cons o rest ih =>
      obtain ⟨m, o⟩ := o
      cases o with
      | none => exact ih.cons _
      | some o => exact ih.cons_cons _
  have hall : (["get", "put", "post", "delete", "options", "head", "patch", "trace"]
      ++ ["parameters"]).Nodup := by decide
  exact hall.sublist ((hsub _).append (List.Sublist.refl _))

/-! ## 2. Decoders -/

namespace Decode

open Decoder ApiTypes.Field

theorem ensures_schema : Ensures schema Schema.UniqueNames := by
  intro v s hv hs
  cases hs
  exact Schema.uniqueNames_ofJson v hv

/-- What is read as a part in its place reads as that part. -/
theorem item_of_orRef {α : Type} {decode : Decoder α} {v : Json} {a : α}
    (h : orRef decode v = .ok (.item a)) : decode v = .ok a := by
  unfold orRef at h
  split at h
  · cases h
  · split at h
    · rename_i b hb
      cases h
      exact hb
    · cases h

/-- What is read as a reference reads as one. -/
theorem ref_of_orRef {α : Type} {decode : Decoder α} {v : Json} {r : RefObject}
    (h : orRef decode v = .ok (.ref r)) : refLayout.decode v = .ok r := by
  unfold orRef at h
  split at h
  · rename_i x hx
    cases h
    exact hx
  · split at h
    · cases h
    · cases h

theorem ensures_orRef {α : Type} {decode : Decoder α} {Q : α → Prop} (h : Ensures decode Q) :
    Ensures (orRef decode) (OrRef.All Q) := by
  intro v part hv hpart a ha
  subst ha
  exact h v a hv (item_of_orRef hpart)

theorem ensures_mediaType : Ensures mediaType MediaType.UniqueNames := by
  refine Layout.ensures (by simp [MediaType.UniqueNames]) ?_
  simp only [List.forall_mem_cons, List.not_mem_nil, false_implies, implies_true, and_true]
  exact ⟨keeps_of (ensures_optional ensures_schema) fun _ _ h _ => h,
    keeps_other fun _ _ h => h⟩

theorem ensures_content : Ensures content Content.UniqueNames := ensures_named ensures_mediaType

theorem ensures_parameter : Ensures parameter Parameter.UniqueNames := by
  refine Layout.ensures (by simp [Parameter.UniqueNames, UniqueValue]) ?_
  simp only [List.forall_mem_cons, List.not_mem_nil, false_implies, implies_true, and_true]
  exact ⟨keeps_needed fun _ _ h => h, keeps_needed fun _ _ h => h, keeps_other fun _ _ h => h,
    keeps_other fun _ _ h => h, keeps_other fun _ _ h => h,
    keeps_of (ensures_optional ensures_schema) fun _ _ h ha => ⟨h, ha.2⟩,
    keeps_of (ensures_optional ensures_content) fun _ _ h ha => ⟨ha.1, h⟩,
    keeps_other fun _ _ h => h⟩

theorem ensures_requestBody : Ensures requestBody RequestBody.UniqueNames := by
  refine Layout.ensures ⟨.nil, by simp⟩ ?_
  simp only [List.forall_mem_cons, List.not_mem_nil, false_implies, implies_true, and_true]
  exact ⟨keeps_other fun _ _ h => h, keeps_of ensures_content fun _ _ h _ => h,
    keeps_other fun _ _ h => h⟩

theorem ensures_header : Ensures header Header.UniqueNames := by
  refine Layout.ensures (by simp [Header.UniqueNames, UniqueValue]) ?_
  simp only [List.forall_mem_cons, List.not_mem_nil, false_implies, implies_true, and_true]
  exact ⟨keeps_other fun _ _ h => h, keeps_other fun _ _ h => h, keeps_other fun _ _ h => h,
    keeps_of (ensures_optional ensures_schema) fun _ _ h ha => ⟨h, ha.2⟩,
    keeps_of (ensures_optional ensures_content) fun _ _ h ha => ⟨ha.1, h⟩⟩

theorem ensures_response : Ensures response Response.UniqueNames := by
  refine Layout.ensures ⟨⟨.nil, by simp⟩, by simp⟩ ?_
  simp only [List.forall_mem_cons, List.not_mem_nil, false_implies, implies_true, and_true]
  exact ⟨keeps_other fun _ _ h => h,
    keeps_of (ensures_named (ensures_orRef ensures_header)) fun _ _ h ha => ⟨h, ha.2⟩,
    keeps_of (ensures_optional ensures_content) fun _ _ h ha => ⟨ha.1, h⟩⟩

theorem ensures_operation : Ensures operation Operation.UniqueNames := by
  refine Layout.ensures ⟨by simp, by simp, .nil, by simp⟩ ?_
  simp only [List.forall_mem_cons, List.not_mem_nil, false_implies, implies_true, and_true]
  exact ⟨keeps_other fun _ _ h => h, keeps_other fun _ _ h => h, keeps_other fun _ _ h => h,
    keeps_other fun _ _ h => h, keeps_other fun _ _ h => h,
    keeps_of (ensures_list (ensures_orRef ensures_parameter)) fun _ _ h ha => ⟨h, ha.2⟩,
    keeps_of (ensures_optional (ensures_orRef ensures_requestBody))
      fun _ _ h ha => ⟨ha.1, h, ha.2.2⟩,
    keeps_of (ensures_entries (ensures_orRef ensures_response))
      fun _ _ h ha => ⟨ha.1, ha.2.1, h⟩⟩

/-- What is read as the operation of a method. -/
theorem ensures_method : Ensures (optional operation) UniqueOperation :=
  ensures_optional ensures_operation

theorem ensures_pathItem : Ensures pathItem PathItem.UniqueNames := by
  refine Layout.ensures (by simp [PathItem.UniqueNames, UniqueOperation]) ?_
  simp only [List.forall_mem_cons, List.not_mem_nil, false_implies, implies_true, and_true]
  exact ⟨keeps_other fun _ _ h => h, keeps_other fun _ _ h => h, keeps_other fun _ _ h => h,
    keeps_of ensures_method fun _ _ h ⟨_, h2, h3, h4, h5, h6, h7, h8, h9⟩ =>
      ⟨h, h2, h3, h4, h5, h6, h7, h8, h9⟩,
    keeps_of ensures_method fun _ _ h ⟨h1, _, h3, h4, h5, h6, h7, h8, h9⟩ =>
      ⟨h1, h, h3, h4, h5, h6, h7, h8, h9⟩,
    keeps_of ensures_method fun _ _ h ⟨h1, h2, _, h4, h5, h6, h7, h8, h9⟩ =>
      ⟨h1, h2, h, h4, h5, h6, h7, h8, h9⟩,
    keeps_of ensures_method fun _ _ h ⟨h1, h2, h3, _, h5, h6, h7, h8, h9⟩ =>
      ⟨h1, h2, h3, h, h5, h6, h7, h8, h9⟩,
    keeps_of ensures_method fun _ _ h ⟨h1, h2, h3, h4, _, h6, h7, h8, h9⟩ =>
      ⟨h1, h2, h3, h4, h, h6, h7, h8, h9⟩,
    keeps_of ensures_method fun _ _ h ⟨h1, h2, h3, h4, h5, _, h7, h8, h9⟩ =>
      ⟨h1, h2, h3, h4, h5, h, h7, h8, h9⟩,
    keeps_of ensures_method fun _ _ h ⟨h1, h2, h3, h4, h5, h6, _, h8, h9⟩ =>
      ⟨h1, h2, h3, h4, h5, h6, h, h8, h9⟩,
    keeps_of ensures_method fun _ _ h ⟨h1, h2, h3, h4, h5, h6, h7, _, h9⟩ =>
      ⟨h1, h2, h3, h4, h5, h6, h7, h, h9⟩,
    keeps_of (ensures_list (ensures_orRef ensures_parameter))
      fun _ _ h ⟨h1, h2, h3, h4, h5, h6, h7, h8, _⟩ => ⟨h1, h2, h3, h4, h5, h6, h7, h8, h⟩⟩

/-- What is read as a collection of components. -/
theorem ensures_collection {α : Type} {decode : Decoder α} {Q : α → Prop}
    (h : Ensures decode Q) : Ensures (optional (named decode)) (UniqueCollection Q) :=
  ensures_optional (ensures_named h)

theorem ensures_components : Ensures components Components.UniqueNames := by
  refine Layout.ensures (by simp [Components.UniqueNames, UniqueCollection]) ?_
  simp only [List.forall_mem_cons, List.not_mem_nil, false_implies, implies_true, and_true]
  exact ⟨
    keeps_of (ensures_collection ensures_schema)
      fun _ _ h ⟨_, h2, h3, h4, h5, h6⟩ => ⟨h, h2, h3, h4, h5, h6⟩,
    keeps_of (ensures_collection (ensures_orRef ensures_response))
      fun _ _ h ⟨h1, _, h3, h4, h5, h6⟩ => ⟨h1, h, h3, h4, h5, h6⟩,
    keeps_of (ensures_collection (ensures_orRef ensures_parameter))
      fun _ _ h ⟨h1, h2, _, h4, h5, h6⟩ => ⟨h1, h2, h, h4, h5, h6⟩,
    keeps_of (ensures_collection (ensures_orRef ensures_requestBody))
      fun _ _ h ⟨h1, h2, h3, _, h5, h6⟩ => ⟨h1, h2, h3, h, h5, h6⟩,
    keeps_of (ensures_collection (ensures_orRef ensures_header))
      fun _ _ h ⟨h1, h2, h3, h4, _, h6⟩ => ⟨h1, h2, h3, h4, h, h6⟩,
    keeps_of (ensures_collection (ensures_orRef ensures_pathItem))
      fun _ _ h ⟨h1, h2, h3, h4, h5, _⟩ => ⟨h1, h2, h3, h4, h5, h⟩⟩

/-- **A description that is read from a value without repeated keys names every part once.** -/
theorem ensures_spec : Ensures spec Spec.UniqueNames := by
  refine Layout.ensures (by simp [Spec.UniqueNames, UniqueCollection]) ?_
  simp only [List.forall_mem_cons, List.not_mem_nil, false_implies, implies_true, and_true]
  exact ⟨keeps_needed fun _ _ h => h, keeps_other fun _ _ h => h, keeps_other fun _ _ h => h,
    keeps_of (ensures_optional (ensures_entries ensures_pathItem)) fun _ _ h ha => ⟨h, ha.2⟩,
    keeps_of (ensures_optional (ensures_entries (ensures_orRef ensures_pathItem)))
      fun _ _ h ha => ⟨ha.1, h, ha.2.2⟩,
    keeps_of (ensures_optional ensures_components) fun _ _ h ha => ⟨ha.1, ha.2.1, h⟩,
    keeps_other fun _ _ h => h⟩

end Decode

end ApiTypes
