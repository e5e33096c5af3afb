/-
# The types of schemas do not depend on the order of siblings

One option sorts the parts of a description that have no order of their own.  Inside a schema
every order has a meaning, so there the option changes nothing: types with and without it are
equal, and so are the contents made of them.

* `Environment.shown` is an environment with the option set.
* `Typing.agree_node` is the step by kinds of schemas, `Typing.agree_schema` and
  `Typing.agree_content` what follows.
-/
import ApiTypes.Proofs.Typing.Agreement
import ApiTypes.Typing.Content

namespace ApiTypes

/-- An environment in which siblings are sorted, or are not. -/
def Environment.shown (env : Environment) (alphabetize : Bool) : Environment :=
  { env with config := { env.config with alphabetize } }

namespace Typing

variable {env : Environment} {b : Bool}

/-! ## 1. Alternatives -/

/-- Typings that agree one by one agree at every position. -/
theorem agree_getD : ∀ {ts us : List (Typing TypeExpr)} (i : Nat),
    List.Forall₂ (Agree Eq) ts us →
    Agree Eq (ts.getD i (pure .never)) (us.getD i (pure .never))
  | _, _, i, .nil => by
    rw [List.getD_nil]
    exact agree_pure rfl
  | _, _, 0, .cons h _ => h
  | _, _, i + 1, .cons _ hrest => by
    rw [List.getD_cons_succ, List.getD_cons_succ]
    exact agree_getD i hrest

theorem agree_arrange {d : Option Discriminator} {ts us : List (Typing TypeExpr)}
    (h : List.Forall₂ (Agree Eq) ts us) (step : Nat × Option String) :
    Agree Eq (arrange env.config d ts step) (arrange (env.shown b).config d us step) := by
  unfold arrange
  refine (agree_getD step.1 h).bind_eq fun variant => ?_
  split
  · exact agree_pure rfl
  · exact agree_pure rfl

theorem agree_alternatives {d : Option Discriminator} {members : List Schema}
    {ts us : List (Typing TypeExpr)} (h : List.Forall₂ (Agree Eq) ts us) :
    Agree Eq (alternatives env d members ts) (alternatives (env.shown b) d members us) := by
  unfold alternatives
  split
  · exact agree_pure rfl
  · refine (agree_mapM_eq fun step _ => agree_arrange h step).bind_eq fun es => ?_
    exact agree_pure rfl

/-! ## 2. Schemas -/

mutual
/-- **The type of a schema does not depend on the order of siblings.** -/
theorem agree_node {depth : Nat} {p : Pointer} : ∀ s : Schema,
    Agree Eq (node env depth p s) (node (env.shown b) depth p s)
  | .reference target traits => by
    rw [node, node]
    exact (agree_reference rfl target p).bind_eq fun q => agree_pure rfl
  | .unknown traits => by
    rw [node, node]
    exact agree_pure rfl
  | .scalar kinds traits => by
    rw [node, node]
    exact agree_pure rfl
  | .enumerated values traits => by
    rw [node, node]
    exact agree_pure rfl
  | .array none least most traits => by
    rw [node, node]
    exact agree_pure rfl
  | .array (some items) least most traits => by
    rw [node, node]
    exact (agree_within (fun _ => agree_node items) rfl).bind_eq fun element => agree_pure rfl
  | .object properties required additional traits => by
    rw [node, node]
    refine (agree_propertyList properties).bind_eq fun members => ?_
    exact (agree_additionalOf additional).bind_eq fun catchAll => agree_pure rfl
  | .composed allOf oneOf anyOf discriminator base traits => by
    rw [node, node]
    refine (agree_mapM_id (agree_nodes allOf)).bind_eq fun all => ?_
    refine (agree_alternatives (agree_nodes oneOf)).bind_eq fun one => ?_
    refine (agree_alternatives (agree_nodes anyOf)).bind_eq fun any => ?_
    cases base with
    | none => exact agree_pure rfl
    | some base =>
      refine (agree_within (fun _ => agree_node base) rfl).bind_eq fun own => ?_
      exact agree_pure rfl

theorem agree_nodes {depth : Nat} {p : Pointer} : ∀ (ss : List Schema) {i : Nat},
    List.Forall₂ (Agree Eq) (nodes env depth p i ss) (nodes (env.shown b) depth p i ss)
  | [], _ => by
    rw [nodes, nodes]
    exact .nil
  | s :: rest, _ => by
    rw [nodes, nodes]
    exact .cons (agree_within (fun _ => agree_node s) rfl) (agree_nodes rest)

theorem agree_propertyList {depth : Nat} {p : Pointer} {required : List String} :
    ∀ properties : List (String × Schema),
      Agree Eq (propertyList env depth p required properties)
        (propertyList (env.shown b) depth p required properties)
  | [] => by
    rw [propertyList, propertyList]
    exact agree_pure rfl
  | (name, s) :: rest => by
    rw [propertyList, propertyList]
    refine (agree_within (fun _ => agree_node s) rfl).bind_eq fun type => ?_
    exact (agree_propertyList rest).bind_eq fun members => agree_pure rfl

theorem agree_additionalOf {depth : Nat} {p : Pointer} : ∀ additional : Additional Schema,
    Agree Eq (additionalOf env depth p additional) (additionalOf (env.shown b) depth p additional)
  | .unsaid => by
    rw [additionalOf, additionalOf]
    exact agree_pure rfl
  | .allowed allowed => by
    rw [additionalOf, additionalOf]
    exact agree_pure rfl
  | .schema s => by
    rw [additionalOf, additionalOf]
    exact (agree_within (fun _ => agree_node s) rfl).bind_eq fun e => agree_pure rfl
end

theorem agree_schema {depth : Nat} {p : Pointer} (s : Schema) :
    Agree Eq (schema env depth p s) (schema (env.shown b) depth p s) :=
  agree_within (fun _ => agree_node s) rfl

/-! ## 3. Contents -/

theorem agree_mediaType {p : Pointer} (m : MediaType) :
    Agree Eq (mediaType env p m) (mediaType (env.shown b) p m) := by
  unfold mediaType
  cases m.schema with
  | some s => exact agree_schema s
  | none => exact agree_pure rfl

/-- The alternatives of a content keep the order of its media types. -/
theorem agree_content {role : ContentRole} {p : Pointer} (c : Content) :
    Agree Eq (content env role p c) (content (env.shown b) role p c) := by
  unfold content
  split
  · exact agree_pure rfl
  · split
    · exact agree_pure rfl
    · refine (agree_mapM_eq fun m _ => agree_mediaType m.2).bind_eq fun es => ?_
      exact agree_pure rfl

end Typing

end ApiTypes
