/-
# The types of operations up to the order of siblings

Where a part has named parts of its own that have no order, the option that sorts them changes
the order of members of a record and nothing else.  For each kind of part `Alike` says how far
two types of it may differ: headers that are described by their content, responses by their
headers, operations by their responses.  What has a schema is equal.

* `Header.Alike`, `Response.Alike`, `Operation.Alike` are the relations.
* `Typing.agree_operation` says that an operation that is typed with and without the option has
  alike types and is otherwise the same.
-/
import ApiTypes.Proofs.Typing.SchemaOrder
import ApiTypes.Typing.Operation

namespace ApiTypes

open TypeExpr Typing

/-! ## 1. Types that are alike -/

/-- Two members under a name that differ at most in their types, and there as a relation
allows. -/
structure MemberAlike (name : String) (R : TypeExpr → TypeExpr → Prop)
    (m n : Member TypeExpr) : Prop where
  left : m.key = .name name
  right : n.key = .name name
  type : R m.type n.type
  optional : m.optional = n.optional
  readonly : m.readonly = n.readonly
  doc : m.doc = n.doc

/-- The types of a reference are equal, those of a part that stands in its place related. -/
def OrRef.Alike {α : Type} (R : α → TypeExpr → TypeExpr → Prop) :
    OrRef α → TypeExpr → TypeExpr → Prop
  | .ref _ => Eq
  | .item a => R a

/-- The members of named parts, in two orders. -/
def MembersAlike {α : Type} (R : α → TypeExpr → TypeExpr → Prop) (entries : List (String × α))
    (ms ns : List (Member TypeExpr)) : Prop :=
  Rearranged (fun e => MemberAlike e.1 (R e.2)) entries ms ns

/-- Two types of a header are equal; only a header without schema, which is a record of its
media types, may have them in two orders. -/
def Header.Alike (h : Header) (a b : TypeExpr) : Prop :=
  a = b ∨ h.schema = none ∧ ∃ ms ns, a = .closed ms ∧ b = .closed ns ∧ ms.Perm ns

/-- Two types of a response are equal up to the order of its headers. -/
def Response.Alike (r : Response) (a b : TypeExpr) : Prop :=
  a = b ∨ ∃ body ms ns, a = .withHeaders body { members := ms } ∧
    b = .withHeaders body { members := ns } ∧
      MembersAlike (OrRef.Alike Header.Alike) r.headers ms ns

/-- Whether a status code is one of success. -/
def isSuccessCode (code : String) : Bool := code.toList.head? = some '2'

/-- Two types of an operation are equal up to the orders of its responses. -/
def Operation.Alike (o : Operation) (a b : TypeExpr) : Prop :=
  ∃ parameters body readonly successes successes' others others',
    a = .closed [.of "parameters" parameters false readonly, body,
      .of "responses" (.closed successes) false readonly,
      .of "exceptions" (.closed others) false readonly] ∧
    b = .closed [.of "parameters" parameters false readonly, body,
      .of "responses" (.closed successes') false readonly,
      .of "exceptions" (.closed others') false readonly] ∧
    MembersAlike (OrRef.Alike Response.Alike) (o.responses.filter (isSuccessCode ·.1))
      successes successes' ∧
    MembersAlike (OrRef.Alike Response.Alike) (o.responses.filter (!isSuccessCode ·.1))
      others others'

/-- Two typings of an operation that differ in its type only, and there up to the orders of its
responses. -/
structure TypedOperation.SameButType (R : TypeExpr → TypeExpr → Prop) (s t : TypedOperation) :
    Prop where
  name : s.name = t.name
  location : s.location = t.location
  kind : s.kind = t.kind
  method : s.method = t.method
  path : s.path = t.path
  tags : s.tags = t.tags
  pathParams : s.pathParams = t.pathParams
  headerParams : s.headerParams = t.headerParams
  cookieParams : s.cookieParams = t.cookieParams
  doc : s.doc = t.doc
  type : R s.type t.type

namespace Typing

variable {env : Environment} {b : Bool}

/-! ## 2. Collections -/

section Collections

variable {α β γ : Type}

/-- Named parts that are shown in two orders. -/
theorem agree_eachNamed {base : Pointer} {R : String × α → β → γ → Prop}
    {f : String → Pointer → α → Typing β} {g : String → Pointer → α → Typing γ}
    {entries : List (String × α)}
    (h : ∀ e ∈ entries, Agree (R e) (f e.1 (base.child e.1) e.2) (g e.1 (base.child e.1) e.2)) :
    Agree (Rearranged R entries) (eachNamed env base f entries)
      (eachNamed (env.shown b) base g entries) :=
  agree_rearranged (ordered_perm _ _) (ordered_perm _ _) h

/-- Items are typed in the order in which they stand. -/
theorem agree_eachItem {base : Pointer} {f g : Pointer → α → Typing β} {items : List α}
    (h : ∀ p a, Agree Eq (f p a) (g p a)) :
    Agree Eq (eachItem base f items) (eachItem base g items) :=
  agree_mapM_eq fun ai _ => h (base.item ai.2) ai.1

end Collections

/-- Equal types are alike. -/
theorem memberAlike_of {name : String} {R : TypeExpr → TypeExpr → Prop} {s t : TypeExpr}
    {optional readonly : Bool} {doc : Option String} (h : R s t) :
    MemberAlike name R (.of name s optional readonly doc) (.of name t optional readonly doc) :=
  ⟨rfl, rfl, h, rfl, rfl, rfl⟩

/-- The members of a reference, as the members of the part that could stand in its place. -/
theorem agree_memberOfReference {R : TypeExpr → TypeExpr → Prop} (hR : ∀ a, R a a)
    {name target : String} {p : Pointer} {doc : Option String} :
    Agree (MemberAlike name R) (referenceMember env name p target doc)
      (referenceMember (env.shown b) name p target doc) :=
  (agree_reference rfl target p).bind_eq fun _ => agree_pure (memberAlike_of (hR _))

/-! ## 3. Headers and responses -/

theorem agree_header {p : Pointer} (h : Header) :
    Agree h.Alike (header env p h) (header (env.shown b) p h) := by
  unfold header schemaOrContent
  cases hs : h.schema with
  | some s => exact (agree_schema s).mono fun _ _ heq => Or.inl heq
  | none =>
    cases h.content with
    | none => exact agree_pure (Or.inl rfl)
    | some c =>
      refine Agree.bind (R := Rearranged (fun _ => Eq) c) (agree_eachNamed fun m _ => ?_) ?_
      · exact (agree_mediaType m.2).bind_eq fun type => agree_pure rfl
      · intro ms ns hperm
        exact agree_pure (Or.inr ⟨hs, ms, ns, rfl, rfl, hperm.perm⟩)

theorem agree_headerMember {name : String} {p : Pointer} (part : OrRef Header) :
    Agree (MemberAlike name (part.Alike Header.Alike)) (headerMember env name p part)
      (headerMember (env.shown b) name p part) := by
  cases part with
  | ref r => exact agree_memberOfReference fun _ => rfl
  | item h => exact (agree_header h).bind fun s t hst => agree_pure (memberAlike_of hst)

theorem agree_response {p : Pointer} (r : Response) :
    Agree r.Alike (response env p r) (response (env.shown b) p r) := by
  unfold response
  cases r.content with
  | none => exact agree_pure (Or.inl rfl)
  | some c =>
    refine (agree_content c).bind_eq fun body => ?_
    split
    · exact agree_pure (Or.inl rfl)
    · refine Agree.bind (agree_eachNamed fun e _ => agree_headerMember e.2) fun ms ns h => ?_
      exact agree_pure (Or.inr ⟨body, ms, ns, rfl, rfl, h⟩)

/-! ## 4. Parameters and bodies -/

theorem agree_effective {p : Pointer} (part : OrRef Parameter) :
    Agree Eq (effective env p part) (effective (env.shown b) p part) := by
  cases part with
  | item parameter => exact agree_pure rfl
  | ref r =>
    refine (agree_reference rfl r.target p).bind_eq fun target => ?_
    exact (agree_lift _).bind_eq fun result => agree_pure rfl

theorem agree_effectiveParameters {site : Site} {location : Pointer} {o : Operation} :
    Agree Eq (effectiveParameters env site location o)
      (effectiveParameters (env.shown b) site location o) := by
  refine (agree_eachItem fun p part => agree_effective part).bind_eq fun own => ?_
  exact (agree_eachItem fun p part => agree_effective part).bind_eq fun shared => agree_pure rfl

theorem agree_parameter {p : Pointer} (param : Parameter) :
    Agree Eq (parameter env p param) (parameter (env.shown b) p param) := by
  unfold parameter schemaOrContent
  cases param.schema with
  | some s => exact agree_schema s
  | none =>
    cases param.content with
    | some c => exact agree_content c
    | none => exact agree_pure rfl

theorem agree_parameters (es : List EffectiveParameter) :
    Agree Eq (parameters env es) (parameters (env.shown b) es) := by
  unfold parameters
  refine Agree.bind_eq (agree_mapM_eq fun e _ => ?_) fun members => ?_
  · exact (agree_parameter e.parameter).bind_eq fun type => agree_pure rfl
  · simp only
    split
    · exact agree_pure rfl
    · exact agree_pure rfl

theorem agree_sharedParameters {p : Pointer} (shared : List (OrRef Parameter)) :
    Agree Eq (sharedParameters env p shared) (sharedParameters (env.shown b) p shared) :=
  (agree_eachItem fun _ part => agree_effective part).bind_eq fun es => agree_parameters es

theorem agree_bodyMember {p : Pointer} (body : Option (OrRef RequestBody)) :
    Agree Eq (bodyMember env p body) (bodyMember (env.shown b) p body) := by
  unfold bodyMember
  cases body with
  | none => exact agree_pure rfl
  | some part =>
    cases part with
    | ref r =>
      refine (agree_reference rfl r.target p).bind_eq fun target => ?_
      exact (agree_lift _).bind_eq fun result => agree_pure rfl
    | item body => exact (agree_content body.content).bind_eq fun type => agree_pure rfl

/-! ## 5. Operations -/

theorem agree_responseMember {code : String} {p : Pointer} (part : OrRef Response) :
    Agree (MemberAlike code (part.Alike Response.Alike)) (responseMember env code p part)
      (responseMember (env.shown b) code p part) := by
  cases part with
  | ref r => exact agree_memberOfReference fun _ => rfl
  | item r => exact (agree_response r).bind fun s t hst => agree_pure (memberAlike_of hst)

theorem agree_responses {p : Pointer} (responses : List (String × OrRef Response)) :
    Agree (MembersAlike (OrRef.Alike Response.Alike) responses)
      (eachNamed env p (responseMember env) responses)
      (eachNamed (env.shown b) p (responseMember (env.shown b)) responses) :=
  agree_eachNamed fun e _ => agree_responseMember e.2

/-- A member is one of success if it stands under a code of success. -/
theorem isSuccess_eq {m : Member TypeExpr} {code : String} (h : m.key = .name code) :
    isSuccess m = isSuccessCode code := by
  simp [isSuccess, isSuccessCode, Member.name?, h]

/-- **An operation is typed alike in either order of its siblings.** -/
theorem agree_operation {site : Site} {method : Method} (o : Operation) :
    Agree (TypedOperation.SameButType o.Alike) (operation env site method o)
      (operation (env.shown b) site method o) := by
  unfold operation
  refine agree_effectiveParameters.bind_eq fun es => ?_
  refine Agree.bind_eq (agree_mapM_eq fun e _ => ?_) fun pathParams => ?_
  · exact (agree_parameter e.parameter).bind_eq fun type => agree_pure rfl
  refine (agree_parameters es).bind_eq fun params => ?_
  refine (agree_bodyMember o.requestBody).bind_eq fun body => ?_
  refine (agree_responses o.responses).bind fun ms ns h => ?_
  refine agree_pure ⟨rfl, rfl, rfl, rfl, rfl, rfl, rfl, rfl, rfl, rfl, ?_⟩
  refine ⟨params, body, env.config.immutableTypes, ms.filter isSuccess, ns.filter isSuccess,
    ms.filter (!isSuccess ·), ns.filter (!isSuccess ·), rfl, rfl, ?_, ?_⟩
  · exact h.filter (fun _ _ _ h => isSuccess_eq h.left) fun _ _ _ h => isSuccess_eq h.right
  · exact h.filter (fun _ _ _ h => by rw [isSuccess_eq h.left])
      fun _ _ _ h => by rw [isSuccess_eq h.right]

/-- The section and the name under which a path item is reached say nothing about its operations
but what they are called. -/
theorem agree_operation_site {kind kind' : RouteKind} {path path' : String} {p : Pointer}
    {shared : List (OrRef Parameter)} {method : Method} (o : Operation) :
    Agree (fun s t => t = { s with name := t.name, kind := t.kind, path := t.path })
      (operation env ⟨kind, path, p, shared⟩ method o)
      (operation env ⟨kind', path', p, shared⟩ method o) := by
  unfold operation
  refine (agree_effectiveParameters (b := true)).left.bind_eq fun es => ?_
  refine Agree.bind_eq (agree_mapM_eq fun e _ => ?_) fun pathParams => ?_
  · exact (agree_parameter (b := true) e.parameter).left.bind_eq fun type => agree_pure rfl
  refine (agree_parameters (b := true) es).left.bind_eq fun params => ?_
  refine (agree_bodyMember (b := true) o.requestBody).left.bind_eq fun body => ?_
  exact (agree_responses (b := true) o.responses).left.bind_eq fun responses => agree_pure rfl

end Typing

end ApiTypes
