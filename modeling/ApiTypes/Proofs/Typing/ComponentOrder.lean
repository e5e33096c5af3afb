/-
# The types of path items and components up to the order of siblings

The operations of a path item have an order of their own, that of methods, and so have the six
collections of the components; only the parts of a collection may be shown in two orders.

* `PathItem.Alike` and `Components.Alike` say how far two types may differ.
* `Typing.agree_pathRecord` and `Typing.agree_components` say that the types with and without
  the option that sorts siblings are alike.
-/
import ApiTypes.Proofs.Typing.OperationOrder
import ApiTypes.Typing.Document

namespace ApiTypes

open TypeExpr Typing

/-! ## 1. Types that are alike -/

/-- Two types of a path item whose operations stand in it are equal up to the types of the
operations; the parameters that the operations share come after them. -/
def PathItem.Alike (item : PathItem) (a b : TypeExpr) : Prop :=
  ∃ ms ns shared, a = .closed (ms ++ shared) ∧ b = .closed (ns ++ shared) ∧
    InStep (fun o => MemberAlike o.1.name o.2.Alike) item.operations ms ns

/-- Two types of a collection are equal if it is not declared, and else the types of its parts
in two orders. -/
def CollectionAlike {α : Type} (R : α → TypeExpr → TypeExpr → Prop)
    (entries : Option (List (String × α))) (a b : TypeExpr) : Prop :=
  match entries with
  | none => a = b
  | some es => ∃ ms ns, a = .closed ms ∧ b = .closed ns ∧ MembersAlike R es ms ns

/-- The names of the collections, each with how far two types of the collection may differ. -/
def Components.relations (c : Components) : List (String × (TypeExpr → TypeExpr → Prop)) :=
  [("schemas", CollectionAlike (fun _ => Eq) c.schemas),
    ("responses", CollectionAlike (OrRef.Alike Response.Alike) c.responses),
    ("parameters", CollectionAlike (OrRef.Alike fun _ => Eq) c.parameters),
    ("requestBodies", CollectionAlike (OrRef.Alike fun _ => Eq) c.requestBodies),
    ("headers", CollectionAlike (OrRef.Alike Header.Alike) c.headers),
    ("pathItems", CollectionAlike (OrRef.Alike PathItem.Alike) c.pathItems)]

/-- Two types of the components have alike collections, in one order. -/
def Components.Alike (c : Components) (a b : TypeExpr) : Prop :=
  ∃ ms ns, a = .closed ms ∧ b = .closed ns ∧
    InStep (fun r => MemberAlike r.1 r.2) c.relations ms ns

namespace Typing

variable {env : Environment} {b : Bool}

/-! ## 2. Path items -/

theorem agree_pathItemAt {target : String} {p : Pointer} :
    Agree Eq (pathItemAt env target p) (pathItemAt (env.shown b) target p) :=
  (agree_reference rfl target p).bind_eq fun _ => agree_lift _

theorem agree_followed {p : Pointer} (item : PathItem) :
    Agree Eq (followed env p item) (followed (env.shown b) p item) := by
  unfold followed
  cases item.reference with
  | some target => exact agree_pathItemAt
  | none => exact agree_pure rfl

/-- Two typings of the operation of a method, in either order of siblings. -/
structure OperationTwins (env env' : Environment) (site : Site) (o : Method × Operation)
    (s t : TypedOperation) : Prop where
  left : Gives (operation env site o.1 o.2) s
  right : Gives (operation env' site o.1 o.2) t
  same : s.SameButType o.2.Alike t

/-- The operations of a path item, in the order of methods. -/
theorem agree_operationsOf {kind : RouteKind} {path : String} {p : Pointer} (item : PathItem) :
    Agree (InStep (OperationTwins env (env.shown b) ⟨kind, path, p, item.parameters⟩)
        item.operations)
      (operationsOf env kind path p item) (operationsOf (env.shown b) kind path p item) :=
  agree_inStep fun o _ => (agree_operation o.2).mono_gives fun _ _ hs ht h => ⟨hs, ht, h⟩

/-- The member of an operation of a path item. -/
def operationMember (env : Environment) (shown : TypedOperation → TypeExpr) (o : TypedOperation) :
    Member TypeExpr :=
  memberFor env (.name o.method.name) (shown o) o.doc

/-- What the record of a path item has besides the members of the operations does not depend on
the operations. -/
theorem agree_pathRecord {p : Pointer} {item : PathItem} {os os' : List TypedOperation}
    {shown shown' : TypedOperation → TypeExpr} :
    Agree (fun s t => ∃ shared, s = .closed (os.map (operationMember env shown) ++ shared) ∧
        t = .closed (os'.map (operationMember env shown') ++ shared))
      (pathRecord env p item os shown) (pathRecord (env.shown b) p item os' shown') := by
  unfold pathRecord
  split
  · refine agree_pure ⟨[], ?_, ?_⟩
    · rw [List.append_nil]
      rfl
    · rw [List.append_nil]
      rfl
  · exact (agree_sharedParameters item.parameters).bind_eq fun shared => agree_pure ⟨_, rfl, rfl⟩

/-- A path item whose operations stand in it. -/
theorem agree_pathItemComponent {name : String} {p : Pointer} (item : PathItem) :
    Agree (MemberAlike name item.Alike) (pathItemComponent env name p item)
      (pathItemComponent (env.shown b) name p item) := by
  refine (agree_operationsOf item).bind fun os os' hos => ?_
  refine agree_pathRecord.bind fun s t hst => ?_
  obtain ⟨shared, hs, ht⟩ := hst
  refine agree_pure ⟨rfl, rfl, ⟨_, _, shared, hs, ht, hos.map ?_⟩, rfl, rfl, rfl⟩
  intro o s t h
  obtain ⟨_, _, _, hmethod, _⟩ := h.left.of_operation
  refine ⟨?_, ?_, h.same.type, rfl, rfl, h.same.doc⟩
  · exact congrArg (MemberKey.name ∘ Method.name) hmethod
  · exact congrArg (MemberKey.name ∘ Method.name) (h.same.method.symm.trans hmethod)

/-! ## 3. Components -/

section Collections

variable {α : Type} {R : α → TypeExpr → TypeExpr → Prop}
  {type type' : String → Pointer → α → Typing (Member TypeExpr)}

theorem agree_collection {name : String} {entries : Option (List (String × α))}
    (h : ∀ name p a, Agree (MemberAlike name (R a)) (type name p a) (type' name p a)) :
    Agree (MemberAlike name (CollectionAlike R entries)) (collection env name type entries)
      (collection (env.shown b) name type' entries) := by
  cases entries with
  | none => exact agree_pure ⟨rfl, rfl, rfl, rfl, rfl, rfl⟩
  | some es =>
    refine Agree.bind (agree_eachNamed fun e _ => h e.1 _ e.2) fun ms ns hms => ?_
    exact agree_pure ⟨rfl, rfl, ⟨ms, ns, rfl, rfl, hms⟩, rfl, rfl, rfl⟩

theorem agree_componentOrRef {name : String} {p : Pointer} {part : OrRef α}
    (h : ∀ name p a, Agree (MemberAlike name (R a)) (type name p a) (type' name p a)) :
    Agree (MemberAlike name (part.Alike R)) (componentOrRef env type name p part)
      (componentOrRef (env.shown b) type' name p part) := by
  cases part with
  | ref r => exact agree_memberOfReference fun _ => rfl
  | item a => exact h name p a

end Collections

theorem agree_schemaComponent {name : String} {p : Pointer} (s : Schema) :
    Agree (MemberAlike name Eq) (schemaComponent env name p s)
      (schemaComponent (env.shown b) name p s) :=
  (agree_schema s).bind fun _ _ h => agree_pure (memberAlike_of h)

theorem agree_responseComponent {name : String} {p : Pointer} (r : Response) :
    Agree (MemberAlike name r.Alike) (responseComponent env name p r)
      (responseComponent (env.shown b) name p r) :=
  (agree_response r).bind fun _ _ h => agree_pure ⟨rfl, rfl, h, rfl, rfl, rfl⟩

theorem agree_parameterComponent {name : String} {p : Pointer} (param : Parameter) :
    Agree (MemberAlike name Eq) (parameterComponent env name p param)
      (parameterComponent (env.shown b) name p param) :=
  (agree_parameter param).bind fun _ _ h => agree_pure ⟨rfl, rfl, h, rfl, rfl, rfl⟩

theorem agree_bodyComponent {name : String} {p : Pointer} (body : RequestBody) :
    Agree (MemberAlike name Eq) (bodyComponent env name p body)
      (bodyComponent (env.shown b) name p body) :=
  (agree_content body.content).bind fun _ _ h => agree_pure (memberAlike_of h)

theorem agree_headerComponent {name : String} {p : Pointer} (h : Header) :
    Agree (MemberAlike name h.Alike) (headerComponent env name p h)
      (headerComponent (env.shown b) name p h) :=
  (agree_header h).bind fun _ _ h => agree_pure ⟨rfl, rfl, h, rfl, rfl, rfl⟩

/-- **The components are typed alike in either order of siblings.** -/
theorem agree_components (c : Components) :
    Agree c.Alike (components env c) (components (env.shown b) c) := by
  unfold components
  refine Agree.bind (agree_collection fun _ _ s => agree_schemaComponent s) fun m₁ n₁ h₁ => ?_
  refine Agree.bind (agree_collection fun _ _ r =>
    agree_componentOrRef fun _ _ r => agree_responseComponent r) fun m₂ n₂ h₂ => ?_
  refine Agree.bind (agree_collection fun _ _ q =>
    agree_componentOrRef fun _ _ param => agree_parameterComponent param) fun m₃ n₃ h₃ => ?_
  refine Agree.bind (agree_collection fun _ _ q =>
    agree_componentOrRef fun _ _ body => agree_bodyComponent body) fun m₄ n₄ h₄ => ?_
  refine Agree.bind (agree_collection fun _ _ r =>
    agree_componentOrRef fun _ _ h => agree_headerComponent h) fun m₅ n₅ h₅ => ?_
  refine Agree.bind (agree_collection fun _ _ r =>
    agree_componentOrRef fun _ _ item => agree_pathItemComponent item) fun m₆ n₆ h₆ => ?_
  refine agree_pure ⟨_, _, rfl, rfl, ?_⟩
  exact .cons h₁ (.cons h₂ (.cons h₃ (.cons h₄ (.cons h₅ (.cons h₆ .nil)))))

end Typing

end ApiTypes
