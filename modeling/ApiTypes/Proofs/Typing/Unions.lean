/-
# Where unions come from

The types of operations and components put the types of schemas and of content under names.  They
make records, intersections and choices of members on the way, but no unions: every union is a part
of the type of a schema or the type of some content.  So a property that is trivial for whatever is
no union holds everywhere if it holds there.

* `UnionProperty` is such a property.
* `UnionProperty.operation`, `UnionProperty.pathRecord` and `UnionProperty.components` are the
  steps.
-/
import ApiTypes.Proofs.Typing.OperationBuilding
import ApiTypes.Proofs.Typing.OperationParts

namespace ApiTypes

open TypeExpr Typing

/-- **A property of unions**: whatever is no union has it, and so has everything that occurs in the
types of schemas and of content. -/
structure UnionProperty (env : Environment) (P : TypeExpr → Prop) : Prop where
  other : ∀ e, (∀ ms, e ≠ union ms) → P e
  schema : ∀ depth p s, Ensures (Obeys P) (Typing.schema env depth p s)
  content : ∀ role p c, Ensures (Obeys P) (Typing.content env role p c)

namespace UnionProperty

variable {env : Environment} {P : TypeExpr → Prop} (hp : UnionProperty env P)

/-! ## 1. Members and records -/

/-- A member under a name. -/
theorem member_of {name : String} {type : TypeExpr} {optional readonly : Bool}
    {doc : Option String} (h : Obeys P type) :
    MemberObeys P (.of name type optional readonly doc) :=
  (memberObeys_name rfl).mpr h

include hp

theorem leaf {e : TypeExpr} (hparts : parts e = [e]) (h : ∀ ms, e ≠ union ms) : Obeys P e :=
  (obeys_leaf hparts).mpr (hp.other e h)

theorem closed {ms : List (Member TypeExpr)} (h : ∀ m ∈ ms, MemberObeys P m) :
    Obeys P (closed ms) :=
  obeys_closed.mpr ⟨hp.other _ nofun, h⟩

theorem referenceMember {name target : String} {p : Pointer} {doc : Option String} :
    Ensures (MemberObeys P) (referenceMember env name p target doc) :=
  (ensures_gives _).bind fun _ _ => ensures_pure (member_of (hp.leaf rfl nofun))

/-! ## 2. Payloads -/

theorem mediaType {p : Pointer} {m : MediaType} : Ensures (Obeys P) (mediaType env p m) := by
  unfold Typing.mediaType
  split
  · exact hp.schema _ _ _
  · exact ensures_pure (hp.leaf rfl nofun)

theorem schemaOrContent {p : Pointer} {s : Option Schema} {c : Option Content}
    {byContent : Content → Typing TypeExpr} {otherwise : TypeExpr}
    (hc : ∀ c, Ensures (Obeys P) (byContent c)) (ho : Obeys P otherwise) :
    Ensures (Obeys P) (schemaOrContent env p s c byContent otherwise) := by
  cases s with
  | some s => exact hp.schema _ _ _
  | none =>
    cases c with
    | some c => exact hc c
    | none => exact ensures_pure ho

theorem header {p : Pointer} {hd : Header} : Ensures (Obeys P) (header env p hd) := by
  refine hp.schemaOrContent (fun c => ?_) (hp.leaf rfl nofun)
  refine (Ensures.eachNamed fun e _ p => ?_).bind fun ms hms => ensures_pure (hp.closed hms)
  exact hp.mediaType.bind fun type ht => ensures_pure (member_of ht)

theorem headerMember {name : String} {p : Pointer} {part : OrRef Header} :
    Ensures (MemberObeys P) (headerMember env name p part) := by
  cases part with
  | ref r => exact hp.referenceMember
  | item hd => exact hp.header.bind fun type ht => ensures_pure (member_of ht)

theorem response {p : Pointer} {r : Response} : Ensures (Obeys P) (response env p r) := by
  unfold Typing.response
  split
  · exact ensures_pure (hp.leaf rfl nofun)
  · refine (hp.content _ _ _).bind fun body hbody => ?_
    split
    · exact ensures_pure hbody
    · refine (Ensures.eachNamed fun e _ p => hp.headerMember).bind fun ms hms => ?_
      exact ensures_pure (obeys_withHeaders_iff.mpr ⟨hp.other _ nofun, hbody, hp.closed hms⟩)

/-! ## 3. Operations -/

theorem parameter {p : Pointer} {param : Parameter} :
    Ensures (Obeys P) (parameter env p param) :=
  hp.schemaOrContent (fun _ => hp.content _ _ _) (hp.leaf rfl nofun)

theorem parameters {es : List EffectiveParameter} : Ensures (Obeys P) (parameters env es) := by
  have hmember : ∀ e ∈ es.filter (·.group.isNone),
      Ensures (MemberObeys P) (parameterMember env e) := fun e _ =>
    hp.parameter.bind fun type ht => ensures_pure (member_of ht)
  unfold Typing.parameters
  refine (Ensures.mapM hmember).bind fun ms hms => ?_
  simp only
  split
  · exact ensures_pure (hp.leaf rfl nofun)
  · refine ensures_pure (obeys_builtIntersection (hp.other _ nofun) (fun _ _ _ => hp.other _ nofun)
      (List.forall_mem_append.mpr ⟨?_, ?_⟩))
    · split
      · exact List.forall_mem_nil _
      · exact List.forall_mem_singleton.mpr (hp.closed hms)
    · rw [List.forall_mem_map]
      exact fun g _ => hp.leaf rfl nofun

theorem bodyMember {p : Pointer} {body : Option (OrRef RequestBody)} :
    Ensures (MemberObeys P) (bodyMember env p body) := by
  unfold Typing.bodyMember
  split
  · exact ensures_pure (member_of (hp.leaf rfl nofun))
  · refine (ensures_gives _).bind fun target _ => (ensures_gives _).bind fun found _ => ?_
    exact ensures_pure (member_of (hp.leaf rfl nofun))
  · exact (hp.content _ _ _).bind fun type ht => ensures_pure (member_of ht)

theorem responseMember {code : String} {p : Pointer} {part : OrRef Response} :
    Ensures (MemberObeys P) (responseMember env code p part) := by
  cases part with
  | ref r => exact hp.referenceMember
  | item r => exact hp.response.bind fun type ht => ensures_pure (member_of ht)

/-- **The types of an operation.** -/
theorem operation {site : Site} {method : Method} {o : Operation} :
    Ensures (TypedOperation.Obeys P) (operation env site method o) := by
  have hpath : ∀ e : EffectiveParameter, Ensures (fun q : String × TypeExpr => Obeys P q.2)
      (do return (e.parameter.name, ← Typing.parameter env e.pointer e.parameter)) := fun e =>
    hp.parameter.bind fun type ht => ensures_pure ht
  unfold Typing.operation
  refine (ensures_gives _).bind fun es _ => ?_
  refine (Ensures.mapM fun e _ => hpath e).bind fun pathParams hpathParams => ?_
  refine hp.parameters.bind fun params hparams => ?_
  refine hp.bodyMember.bind fun body hbody => ?_
  refine (Ensures.eachNamed fun e _ p => hp.responseMember).bind fun responses hres => ?_
  have hsome : ∀ keep : Member TypeExpr → Bool, Obeys P (.closed (responses.filter keep)) :=
    fun keep => hp.closed fun m hm => hres m (List.mem_of_mem_filter hm)
  refine ensures_pure ⟨hp.closed ?_, hpathParams⟩
  simp only [List.forall_mem_cons, List.not_mem_nil, false_implies, implies_true, and_true]
  exact ⟨member_of hparams, hbody, member_of (hsome _), member_of (hsome _)⟩

theorem operationsOf {kind : RouteKind} {path : String} {p : Pointer} {item : PathItem} :
    Ensures (fun os => ∀ o ∈ os, o.Obeys P) (operationsOf env kind path p item) :=
  .mapM fun _ _ => hp.operation

/-! ## 4. Path items and components -/

/-- **The record of a path item**, if what it shows of the operations obeys. -/
theorem pathRecord {p : Pointer} {item : PathItem} {os : List TypedOperation}
    {shown : TypedOperation → TypeExpr} (hshown : ∀ o ∈ os, Obeys P (shown o)) :
    Ensures (Obeys P) (pathRecord env p item os shown) := by
  have hmembers : ∀ m ∈ os.map fun o => memberFor env (.name o.method.name) (shown o) o.doc,
      MemberObeys P m := by
    rw [List.forall_mem_map]
    exact fun o ho => member_of (hshown o ho)
  unfold Typing.pathRecord
  split
  · exact ensures_pure (hp.closed hmembers)
  · have hes : Ensures (Obeys P) (sharedParameters env p item.parameters) :=
      (ensures_gives _).bind fun es _ => hp.parameters
    refine hes.bind fun shared hshared => ensures_pure (hp.closed ?_)
    exact List.forall_mem_append.mpr ⟨hmembers, List.forall_mem_singleton.mpr (member_of hshared)⟩

section Collections

variable {α : Type} {type : String → Pointer → α → Typing (Member TypeExpr)}

theorem collection {name : String} {entries : Option (List (String × α))}
    (h : ∀ name p a, Ensures (MemberObeys P) (type name p a)) :
    Ensures (MemberObeys P) (collection env name type entries) := by
  cases entries with
  | none => exact ensures_pure (member_of (hp.leaf rfl nofun))
  | some entries =>
    refine (Ensures.eachNamed fun e _ p => h e.1 p e.2).bind fun ms hms => ?_
    exact ensures_pure (member_of (hp.closed hms))

theorem componentOrRef (h : ∀ name p a, Ensures (MemberObeys P) (type name p a)) (name : String)
    (p : Pointer) (part : OrRef α) :
    Ensures (MemberObeys P) (componentOrRef env type name p part) := by
  cases part with
  | ref r => exact hp.referenceMember
  | item a => exact h name p a

end Collections

/-- **The type of the components.** -/
theorem components {c : Components} : Ensures (Obeys P) (components env c) := by
  unfold Typing.components
  refine (hp.collection fun name p s => ?_).bind fun m1 h1 => ?_
  · exact (hp.schema _ _ _).bind fun type ht => ensures_pure (member_of ht)
  refine (hp.collection (hp.componentOrRef fun name p r => ?_)).bind fun m2 h2 => ?_
  · exact hp.response.bind fun type ht => ensures_pure (member_of ht)
  refine (hp.collection (hp.componentOrRef fun name p param => ?_)).bind fun m3 h3 => ?_
  · exact hp.parameter.bind fun type ht => ensures_pure (member_of ht)
  refine (hp.collection (hp.componentOrRef fun name p b => ?_)).bind fun m4 h4 => ?_
  · exact (hp.content _ _ _).bind fun type ht => ensures_pure (member_of ht)
  refine (hp.collection (hp.componentOrRef fun name p hd => ?_)).bind fun m5 h5 => ?_
  · exact hp.header.bind fun type ht => ensures_pure (member_of ht)
  refine (hp.collection (hp.componentOrRef fun name p item => ?_)).bind fun m6 h6 => ?_
  · refine hp.operationsOf.bind fun os hos => ?_
    refine (hp.pathRecord fun o ho => (hos o ho).1).bind fun type ht => ?_
    exact ensures_pure (member_of ht)
  refine ensures_pure (hp.closed ?_)
  simp only [List.forall_mem_cons, List.not_mem_nil, false_implies, implies_true, and_true]
  exact ⟨h1, h2, h3, h4, h5, h6⟩

end UnionProperty

end ApiTypes
