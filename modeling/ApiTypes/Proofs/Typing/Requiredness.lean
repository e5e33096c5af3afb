/-
# What must be sent

A body, a header or a parameter may be given on the spot or by a reference, and it is the object in
the end that says whether it is required.  The body of an operation is looked up, so its member is
optional just if the body may be left out.  A header of a response that is given by reference is
only named: its member is never optional, and it says what the header says only if that is required.

* `Resolver.Denotes`: the object that a part or the chain of references from it ends with.
* `Typing.optional_bodyMember`, `Typing.flagged_headerMember` are the parts.
* `Typing.requiredness_of_parts` is the statement for responses and operations.
* `Typing.exists_header_misflagged`: a header that may be left out and is not optional.
-/
import ApiTypes.Proofs.Typing.Occurring
import ApiTypes.Typing.Operation
import Mathlib

namespace ApiTypes

/-- **The object that a part at a place finally denotes**: itself, or what the chain of references
that it starts ends with. -/
def Resolver.Denotes {α : Type} (r : Resolver) (decode : Decoder α) (p : Pointer) :
    OrRef α → α → Prop
  | .item b, a => b = a
  | .ref x, a => ∃ q, r.resolveAs decode x.target p = .ok (q, a)

namespace Typing

variable {env : Environment} {p : Pointer}

/-! ## 1. Bodies -/

/-- **The content of an operation is optional just if it has a body that may be left out.** -/
theorem optional_bodyMember {body : Option (OrRef RequestBody)} {m : Member TypeExpr}
    (h : Gives (bodyMember env p body) m) :
    m.key = .name "content" ∧ (m.optional = true ↔ ∃ part b, body = some part ∧
      env.resolver.Denotes Decode.requestBody p part b ∧ b.required = false) := by
  unfold bodyMember at h
  split at h
  · rw [h.of_pure]
    exact ⟨rfl, by simp [Member.of]⟩
  · rename_i r
    obtain ⟨target, _, h⟩ := h.of_bind
    obtain ⟨⟨q, b⟩, hb, h⟩ := h.of_bind
    have hresolve := hb.of_lift
    rw [h.of_pure]
    refine ⟨rfl, ?_⟩
    simp [Member.of, Resolver.Denotes, hresolve]
  · rename_i b
    obtain ⟨type, _, h⟩ := h.of_bind
    rw [h.of_pure]
    refine ⟨rfl, ?_⟩
    simp [Member.of, Resolver.Denotes]

/-! ## 2. Headers -/

/-- The member of a header among those that stand below a pointer.  It is optional just if the
header stands there itself and may be left out; so it tells whether the header that is finally
denoted may be left out, unless that is so and it was given by reference. -/
structure Flagged (env : Environment) (base : Pointer) (entry : String × OrRef Header)
    (m : Member TypeExpr) : Prop where
  key : m.key = .name entry.1
  optional : m.optional = true ↔ ∃ h, entry.2 = .item h ∧ h.required = false
  agrees : ∀ h, env.resolver.Denotes Decode.header (base.child entry.1) entry.2 h →
    ((m.optional = true ↔ h.required = false) ↔ ((∃ r, entry.2 = .ref r) → h.required = true))

theorem flagged_headerMember {base : Pointer} {entry : String × OrRef Header}
    {m : Member TypeExpr}
    (h : Gives (headerMember env entry.1 (base.child entry.1) entry.2) m) :
    Flagged env base entry m := by
  obtain ⟨name, part⟩ := entry
  cases part with
  | ref r =>
    obtain ⟨_, _, h⟩ := h.of_bind
    rw [h.of_pure]
    exact ⟨rfl, by simp [Member.of], fun h _ => by simp [Member.of]⟩
  | item hd =>
    obtain ⟨_, _, h⟩ := h.of_bind
    rw [h.of_pure]
    refine ⟨rfl, by simp [Member.of], fun h hdenotes => ?_⟩
    obtain rfl : hd = h := hdenotes
    simp [Member.of]

/-- The type of a response that has content and headers is a payload with the members of its
headers. -/
def HeadersFlagged (env : Environment) (p : Pointer) (r : Response) (e : TypeExpr) : Prop :=
  r.content.isSome → r.headers ≠ [] → ∃ payload ms, e = .withHeaders payload { members := ms } ∧
    List.Forall₂ (Flagged env (p.child "headers")) (ordered env.config.alphabetize r.headers) ms

theorem headersFlagged_response {r : Response} {e : TypeExpr} (h : Gives (response env p r) e) :
    HeadersFlagged env p r e := by
  intro hcontent hheaders
  unfold response at h
  split at h
  · rename_i hnone
    rw [hnone] at hcontent
    cases hcontent
  · obtain ⟨payload, _, h⟩ := h.of_bind
    rw [if_neg (by simpa using hheaders)] at h
    obtain ⟨ms, hms, h⟩ := h.of_bind
    exact ⟨payload, ms, h.of_pure, hms.of_eachNamed.imp fun _ _ => flagged_headerMember⟩

/-! ## 3. Operations -/

/-- **What may be left out is optional, but for headers that are given by reference.**  Of every
response with content each header has a member, optional just if the header stands there itself and
is not required.  The content of an operation is optional just if the body that it finally denotes
is not required, and its responses are among its responses and exceptions. -/
theorem requiredness_of_parts (env : Environment) :
    (∀ p r e, Gives (response env p r) e → HeadersFlagged env p r e) ∧
    ∀ site method o t, Gives (operation env site method o) t →
      ∃ params body responses exceptions readonly, t.type = .closed [params, body,
          .of "responses" (.closed responses) false readonly,
          .of "exceptions" (.closed exceptions) false readonly] ∧
        body.key = .name "content" ∧
        (body.optional = true ↔ ∃ part b, o.requestBody = some part ∧
          env.resolver.Denotes Decode.requestBody
            ((site.pointer.child method.name).child "requestBody") part b ∧ b.required = false) ∧
        ∀ code r, (code, .item r) ∈ o.responses →
          ∃ m ∈ responses ++ exceptions, m.key = .name code ∧ HeadersFlagged env
            (((site.pointer.child method.name).child "responses").child code) r m.type := by
  refine ⟨fun p r e => headersFlagged_response, fun site method o t h => ?_⟩
  obtain ⟨es, _, h⟩ := h.of_bind
  obtain ⟨pathParams, _, h⟩ := h.of_bind
  obtain ⟨params, _, h⟩ := h.of_bind
  obtain ⟨body, hbody, h⟩ := h.of_bind
  obtain ⟨responses, hresponses, h⟩ := h.of_bind
  obtain ⟨hkey, hoptional⟩ := optional_bodyMember hbody
  rw [h.of_pure]
  refine ⟨_, body, _, _, _, rfl, hkey, hoptional, fun code r hr => ?_⟩
  obtain ⟨m, hm, hgives⟩ :=
    exists_of_forall₂ (R := flip _) hresponses.of_eachNamed.flip (mem_ordered.mpr hr)
  obtain ⟨type, htype, hmember⟩ := Gives.of_bind
    (show Gives (responseMember env code _ (.item r)) m from hgives)
  rw [hmember.of_pure] at hm
  refine ⟨.of code type false env.config.immutableTypes (Comment.ofResponse r), ?_, rfl,
    headersFlagged_response htype⟩
  rw [List.mem_append, List.mem_filter, List.mem_filter, Bool.not_eq_true']
  cases isSuccess (.of code type false env.config.immutableTypes (Comment.ofResponse r)) with
  | true => exact Or.inl ⟨hm, rfl⟩
  | false => exact Or.inr ⟨hm, rfl⟩

/-! ## 4. A header that is given by reference -/

/-- A description with a body and a header that may be left out. -/
def rateEnvironment : Environment where
  resolver := ⟨.object [("components", .object [
    ("requestBodies", .object [("New", .object [("content", .object [])])]),
    ("headers", .object [("Rate", .object [("schema", .object [("type", .string "integer")])])])])],
    none⟩

/-- The pointer of the body. -/
def newPointer : Pointer := ⟨["components", "requestBodies", "New"]⟩

/-- The pointer of the header. -/
def ratePointer : Pointer := ⟨["components", "headers", "Rate"]⟩

/-- A response with the header, once by reference and once on the spot. -/
def rateResponse : Response where
  headers := [("X-Rate", .ref { target := "#/components/headers/Rate" }),
    ("X-Own", .item { schema := some (.scalar [.integer] {}) })]
  content := some [("text/plain", { schema := some (.scalar [.string] {}) })]

/-- The type of the response. -/
def rateType : TypeExpr := .withHeaders (.primitive .string) { members := [
  .of "X-Rate" (.reference ratePointer) false, .of "X-Own" (.primitive .number) true] }

/-- An operation with the body. -/
def rateOperation : Operation where
  operationId := some "rates"
  requestBody := some (.ref { target := "#/components/requestBodies/New" })

/-- Where the operation stands. -/
def rateSite : Site where
  kind := .path
  path := "/rates"
  pointer := ⟨["paths", "/rates"]⟩

/-- The operation, typed. -/
def rateTyped : TypedOperation where
  name := "rates"
  location := ⟨["paths", "/rates", "post"]⟩
  kind := .path
  method := .post
  path := "/rates"
  tags := []
  pathParams := []
  headerParams := []
  cookieParams := []
  doc := none
  type := .closed [.of "parameters" .void, .of "content" (.reference newPointer) true,
    .of "responses" (.closed []), .of "exceptions" (.closed [])]

theorem gives_rateType : Gives (response rateEnvironment .root rateResponse) rateType :=
  ⟨[], [ratePointer], by cbv⟩

/-- The header that is given by reference is flagged by the reference, the body by itself. -/
theorem requiredness_rateOperation : HeadersFlagged rateEnvironment .root rateResponse rateType ∧
    ∃ params body rest, rateTyped.type = .closed (params :: body :: rest) ∧
      (body.optional = true ↔ ∃ part b, rateOperation.requestBody = some part ∧
        rateEnvironment.resolver.Denotes Decode.requestBody
          (rateTyped.location.child "requestBody") part b ∧ b.required = false) := by
  have hgives : Gives (operation rateEnvironment rateSite .post rateOperation) rateTyped :=
    ⟨[], [newPointer], by cbv⟩
  obtain ⟨params, body, _, _, _, htype, _, hoptional, _⟩ :=
    (requiredness_of_parts rateEnvironment).2 _ _ _ _ hgives
  exact ⟨(requiredness_of_parts rateEnvironment).1 _ _ _ gives_rateType,
    params, body, _, htype, hoptional⟩

/-- A header that is given by reference and may be left out is not optional. -/
theorem exists_header_misflagged : ¬ ∀ env p r e, Gives (response env p r) e →
    r.content.isSome → r.headers ≠ [] →
      ∃ payload ms, e = .withHeaders payload { members := ms } ∧
        List.Forall₂ (fun entry m => m.key = .name entry.1 ∧
            ∀ h, env.resolver.Denotes Decode.header ((p.child "headers").child entry.1) entry.2 h →
              (m.optional = true ↔ h.required = false))
          (ordered env.config.alphabetize r.headers) ms := by
  intro hall
  obtain ⟨payload, ms, he, hms⟩ := hall _ _ _ _ gives_rateType rfl (by simp [rateResponse])
  rw [rateType] at he
  cases he
  cases hms with
  | cons hrate _ =>
    have hdenotes : rateEnvironment.resolver.resolveAs Decode.header "#/components/headers/Rate"
        ((Pointer.root.child "headers").child "X-Rate")
        = .ok (ratePointer, { schema := some (.scalar [.integer] {}) }) := by
      cbv
    have hoptional := (hrate.2 _ ⟨ratePointer, hdenotes⟩).mpr rfl
    cases hoptional

end Typing

end ApiTypes
