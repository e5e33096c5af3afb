/-
# Chains of references

A node that a reference leads to may be a reference again.  Which pointer comes next depends on the
node alone and not on the way to it, so a chain that comes back to a node comes back to a pointer in
the next step.  A chain without repeated pointers therefore leaves a node by its reference once, but
for the last one, and has no more pointers than the document has nodes, and one.

* `Resolver.Chain` is a chain from a reference on, with the pointers that it has come through;
  `Resolver.Chain.length_le` bounds it.
* `Resolver.Outcome` lists how a chain can end.
* `Resolver.resolveAs_eq_iff`: following a chain gives its outcome, and ends in time.
-/
import ApiTypes.Proofs.Json.Following
import ApiTypes.Proofs.Resolver
import Mathlib.Data.List.Perm.Subperm

namespace ApiTypes

/-! ## 1. The nodes of a value -/

namespace Json

mutual
/-- A value and the values in it, one for each node. -/
def values : Json → List Json
  | array xs => array xs :: valuesItems xs
  | object fs => object fs :: valuesFields fs
  | v => [v]

/-- The values in the items of an array. -/
def valuesItems : List Json → List Json
  | [] => []
  | x :: xs => values x ++ valuesItems xs

/-- The values in the fields of an object. -/
def valuesFields : List (String × Json) → List Json
  | [] => []
  | (_, v) :: rest => values v ++ valuesFields rest
end

mutual
theorem length_values : ∀ v : Json, v.values.length = v.nodes
  | .array xs => by
    rw [values, nodes, List.length_cons, length_valuesItems xs, Nat.add_comm]
  | .object fs => by
    rw [values, nodes, List.length_cons, length_valuesFields fs, Nat.add_comm]
  | .null => rfl
  | .bool _ => rfl
  | .number _ => rfl
  | .string _ => rfl

theorem length_valuesItems : ∀ xs : List Json, (valuesItems xs).length = nodesItems xs
  | [] => rfl
  | x :: xs => by
    rw [valuesItems, nodesItems, List.length_append, length_values x, length_valuesItems xs]

theorem length_valuesFields : ∀ fs : List (String × Json),
    (valuesFields fs).length = nodesFields fs
  | [] => rfl
  | (_, v) :: rest => by
    rw [valuesFields, nodesFields, List.length_append, length_values v, length_valuesFields rest]
end

theorem mem_values_self (v : Json) : v ∈ v.values := by
  cases v <;> simp [values]

theorem mem_valuesItems {items : List Json} {v w : Json} (hw : w ∈ items) (hv : v ∈ w.values) :
    v ∈ valuesItems items := by
  induction items with
  | nil => cases hw
  | cons x rest ih =>
    rw [valuesItems, List.mem_append]
    rcases List.mem_cons.mp hw with rfl | hw
    · exact Or.inl hv
    · exact Or.inr (ih hw)

theorem mem_valuesFields {fs : List (String × Json)} {f : String × Json} {v : Json} (hf : f ∈ fs)
    (hv : v ∈ f.2.values) : v ∈ valuesFields fs := by
  induction fs with
  | nil => cases hf
  | cons g rest ih =>
    rw [valuesFields, List.mem_append]
    rcases List.mem_cons.mp hf with rfl | hf
    · exact Or.inl hv
    · exact Or.inr (ih hf)

theorem mem_values_of_step {v w x : Json} {segment : String}
    (h : Pointer.step? v segment = some w) (hx : x ∈ w.values) : x ∈ v.values := by
  cases v with
  | object fs =>
    rw [values]
    exact List.mem_cons_of_mem _ (mem_valuesFields (mem_of_lookup h) hx)
  | array items =>
    obtain ⟨i, _, hi⟩ := Option.bind_eq_some_iff.mp h
    rw [values]
    exact List.mem_cons_of_mem _ (mem_valuesItems (List.mem_of_getElem? hi) hx)
  | null | bool _ | number _ | string _ => cases h

/-- What is found below a value is among its values. -/
theorem mem_values_of_find {segments : List String} {v w : Json}
    (h : Pointer.findFrom? v segments = some w) : w ∈ v.values := by
  induction segments generalizing v with
  | nil =>
    cases h
    exact mem_values_self w
  | cons s rest ih =>
    obtain ⟨x, hx, h⟩ := Option.bind_eq_some_iff.mp h
    exact mem_values_of_step hx (ih h)

end Json

namespace Resolver

variable {r : Resolver} {reference target : String} {location place p : Pointer}
  {seen : List Pointer}

/-! ## 2. Chains -/

/-- A chain that starts with a reference at a location: the pointers that it has come through, the
last one first, and the reference that it has come to with its place. -/
inductive Chain (r : Resolver) (reference : String) (location : Pointer) :
    List Pointer → String → Pointer → Prop
  | start : Chain r reference location [] reference location
  | step {seen : List Pointer} {target target' : String} {place p : Pointer} {v : Json}
      (chain : Chain r reference location seen target place)
      (hp : r.canonical target place = .ok p) (hv : p.find? r.root = some v)
      (hnext : next? v = some target') : Chain r reference location (p :: seen) target' p

/-- The pointers that the references of a document lead to. -/
def leads (r : Resolver) : List Pointer :=
  r.root.values.filterMap fun v =>
    (next? v).bind fun target => (r.canonical target .root).toOption

theorem length_leads_le (r : Resolver) : r.leads.length ≤ r.root.nodes := by
  rw [← Json.length_values]
  exact List.length_filterMap_le _ _

theorem mem_leads {v : Json} (hv : v ∈ r.root.values) (hnext : next? v = some target)
    (hp : r.canonical target place = .ok p) : p ∈ r.leads := by
  refine List.mem_filterMap.mpr ⟨v, hv, ?_⟩
  rw [hnext, Option.bind_some, canonical_root hp]
  rfl

/-- All pointers of a chain but the first one are led to by a reference of the document. -/
theorem Chain.dropLast_subset (h : r.Chain reference location seen target place) :
    seen.dropLast ⊆ r.leads ∧
      (seen = [] ∨ ∃ v ∈ r.root.values, next? v = some target) := by
  induction h with
  | start => exact ⟨List.nil_subset _, Or.inl rfl⟩
  | @step seen target target' place p v _ hp hv hnext ih =>
    refine ⟨?_, Or.inr ⟨v, Json.mem_values_of_find hv, hnext⟩⟩
    obtain ⟨hsubset, rfl | ⟨w, hw, hwnext⟩⟩ := ih
    · exact List.nil_subset _
    · cases seen with
      | nil => exact List.nil_subset _
      | cons q seen =>
        rw [List.dropLast_cons_cons]
        exact List.cons_subset.mpr ⟨mem_leads hw hwnext hp, hsubset⟩

/-- **A chain without repeated pointers is no longer than the document has nodes, and one.** -/
theorem Chain.length_le (h : r.Chain reference location seen target place) (hnodup : seen.Nodup) :
    seen.length ≤ r.root.nodes + 1 := by
  have hsub : seen.dropLast.Nodup := hnodup.sublist (List.dropLast_sublist seen)
  have hle := (hsub.subperm h.dropLast_subset.1).length_le
  have := length_leads_le r
  rw [List.length_dropLast] at hle
  omega

/-! ## 3. How chains end -/

variable {α : Type} {decode : Decoder α} {steps : Nat}

/-- What a chain of references comes to, as long as no pointer is repeated in it. -/
inductive Outcome (r : Resolver) (decode : Decoder α) (reference : String) (location : Pointer) :
    Except Fault (Pointer × α) → Prop
  /-- The last node is no reference, and is decoded. -/
  | decoded {seen : List Pointer} {target : String} {place p : Pointer} {v : Json} {a : α}
      (chain : r.Chain reference location seen target place) (hnodup : (p :: seen).Nodup)
      (hp : r.canonical target place = .ok p) (hv : p.find? r.root = some v)
      (hnext : next? v = none) (hdecode : decode v = .ok a) :
      Outcome r decode reference location (.ok (p, a))
  /-- The last node is no reference, and cannot be decoded. -/
  | malformed {seen : List Pointer} {target : String} {place p : Pointer} {v : Json}
      {e : DecodeError} (chain : r.Chain reference location seen target place)
      (hnodup : (p :: seen).Nodup) (hp : r.canonical target place = .ok p)
      (hv : p.find? r.root = some v) (hnext : next? v = none) (hdecode : decode v = .error e) :
      Outcome r decode reference location (.error (.invalidObject p e))
  /-- A reference leads to no node. -/
  | unresolvable {seen : List Pointer} {target : String} {place : Pointer}
      (chain : r.Chain reference location seen target place) (hnodup : seen.Nodup)
      (hp : ∀ p, r.canonical target place ≠ .ok p) :
      Outcome r decode reference location (.error (.unresolvable target place))
  /-- A reference leads back to a pointer of the chain. -/
  | repeated {seen : List Pointer} {target : String} {place p : Pointer}
      (chain : r.Chain reference location seen target place) (hnodup : seen.Nodup)
      (hp : r.canonical target place = .ok p) (hseen : p ∈ seen) :
      Outcome r decode reference location (.error (.unresolvable target place))

/-- A reference that leads to no node is reported with its place. -/
theorem resolve_eq_error (h : ∀ p, r.canonical target place ≠ .ok p) :
    r.resolve target place = .error (.unresolvable target place) := by
  have hcanonical : r.canonical target place = .error (.unresolvable target place) := by
    unfold canonical at h ⊢
    split
    · rfl
    · rename_i p hlocal
      split
      · rename_i hf
        simp only [hlocal, hf] at h
        exact absurd rfl (h p)
      · rfl
  rw [resolve, hcanonical]

/-- Following a reference to another one. -/
theorem follow_of_next {v : Json} {target' : String} (hp : r.canonical target place = .ok p)
    (hv : p.find? r.root = some v) (hseen : p ∉ seen) (hnext : next? v = some target') :
    r.follow decode (steps + 1) seen target place = r.follow decode steps (p :: seen) target' p := by
  rw [follow, resolve_eq_ok_iff.mpr ⟨hp, hv⟩]
  simp only [if_neg hseen, hnext]

/-- As long as no pointer is repeated, following a chain goes along it. -/
theorem follow_of_chain (h : r.Chain reference location seen target place) (hnodup : seen.Nodup)
    (hsteps : r.root.nodes + 2 ≤ steps) :
    r.follow decode steps [] reference location =
      r.follow decode (steps - seen.length) seen target place := by
  induction h with
  | start => rfl
  | @step seen target target' place p v chain hp hv hnext ih =>
    obtain ⟨hseen, hnodup'⟩ := List.nodup_cons.mp hnodup
    have hle := chain.length_le hnodup'
    have hsucc : steps - seen.length = steps - (p :: seen).length + 1 := by
      rw [List.length_cons]
      omega
    rw [ih hnodup', hsucc, follow_of_next hp hv hseen hnext]

/-- Following a chain gives what it comes to. -/
theorem Outcome.follow_eq {result : Except Fault (Pointer × α)}
    (h : r.Outcome decode reference location result) (hsteps : r.root.nodes + 2 ≤ steps) :
    r.follow decode steps [] reference location = result := by
  -- The last step is left when the chain has come to its last reference.
  have hlast {seen : List Pointer} {target : String} {place : Pointer}
      (chain : r.Chain reference location seen target place) (hnodup : seen.Nodup) :
      ∃ n, r.follow decode steps [] reference location =
        r.follow decode (n + 1) seen target place := by
    have hle := chain.length_le hnodup
    refine ⟨steps - seen.length - 1, ?_⟩
    rw [follow_of_chain chain hnodup hsteps]
    congr 1
    omega
  cases h with
  | decoded chain hnodup hp hv hnext hdecode =>
    obtain ⟨hseen, hnodup⟩ := List.nodup_cons.mp hnodup
    obtain ⟨n, hn⟩ := hlast chain hnodup
    rw [hn, follow, resolve_eq_ok_iff.mpr ⟨hp, hv⟩]
    simp only [if_neg hseen, hnext, hdecode]
  | malformed chain hnodup hp hv hnext hdecode =>
    obtain ⟨hseen, hnodup⟩ := List.nodup_cons.mp hnodup
    obtain ⟨n, hn⟩ := hlast chain hnodup
    rw [hn, follow, resolve_eq_ok_iff.mpr ⟨hp, hv⟩]
    simp only [if_neg hseen, hnext, hdecode]
  | unresolvable chain hnodup hp =>
    obtain ⟨n, hn⟩ := hlast chain hnodup
    rw [hn, follow, resolve_eq_error hp]
  | repeated chain hnodup hp hseen =>
    obtain ⟨n, hn⟩ := hlast chain hnodup
    obtain ⟨v, hv⟩ := find_of_canonical hp
    rw [hn, follow, resolve_eq_ok_iff.mpr ⟨hp, hv⟩]
    simp only [if_pos hseen]

/-- **Every chain comes to something**: it can only go on as long as the bound allows. -/
theorem Chain.exists_outcome (h : r.Chain reference location seen target place)
    (hnodup : seen.Nodup) : ∃ result, r.Outcome decode reference location result := by
  generalize hroom : r.root.nodes + 2 - seen.length = room
  induction room generalizing seen target place with
  | zero =>
    have := h.length_le hnodup
    omega
  | succ room ih =>
    by_cases hresolves : ∃ p, r.canonical target place = .ok p
    · obtain ⟨p, hp⟩ := hresolves
      obtain ⟨v, hv⟩ := find_of_canonical hp
      by_cases hseen : p ∈ seen
      · exact ⟨_, .repeated h hnodup hp hseen⟩
      · have hnodup' : (p :: seen).Nodup := List.nodup_cons.mpr ⟨hseen, hnodup⟩
        cases hnext : next? v with
        | some target' =>
          refine ih (h.step hp hv hnext) hnodup' ?_
          rw [List.length_cons]
          omega
        | none =>
          cases hdecode : decode v with
          | ok a => exact ⟨_, .decoded h hnodup' hp hv hnext hdecode⟩
          | error e => exact ⟨_, .malformed h hnodup' hp hv hnext hdecode⟩
    · exact ⟨_, .unresolvable h hnodup (not_exists.mp hresolves)⟩

/-- **A chain of references ends in time, and with the right answer.**  As long as it repeats no
pointer it takes at most one step for each node of the document, and two; what is reported is what
the chain comes to, and would be with any greater number of steps. -/
theorem resolveAs_eq_iff (r : Resolver) (decode : Decoder α) (reference : String)
    (location : Pointer) :
    (∀ seen target place, r.Chain reference location seen target place → seen.Nodup →
        seen.length + 1 ≤ r.root.nodes + 2) ∧
      (∀ steps, r.root.nodes + 2 ≤ steps →
        r.follow decode steps [] reference location = r.resolveAs decode reference location) ∧
      ∀ result, r.resolveAs decode reference location = result ↔
        r.Outcome decode reference location result := by
  have hstart : r.Chain reference location [] reference location := .start
  obtain ⟨outcome, houtcome⟩ : ∃ outcome, r.Outcome decode reference location outcome :=
    hstart.exists_outcome List.nodup_nil
  have heq : r.resolveAs decode reference location = outcome :=
    houtcome.follow_eq (Nat.le_refl _)
  refine ⟨fun seen target place h hnodup => ?_, fun steps hsteps => ?_, fun result => ?_⟩
  · have := h.length_le hnodup
    omega
  · rw [heq, houtcome.follow_eq hsteps]
  · constructor
    · rintro rfl
      rw [heq]
      exact houtcome
    · intro h
      exact h.follow_eq (Nat.le_refl _)

/-- A document with a chain of three references, and with one that comes back to its own node under
another pointer. -/
def chainResolver : Resolver where
  root := .object [
    ("limits", .array [.object [("$ref", .string "api.yaml#/named/Page%20size")],
      .object [("$ref", .string "#/limits/01")]]),
    ("named", .object [("Page size", .object [("$ref", .string "#/named/Limit")]),
      ("Limit", .object [("maximum", .bool true)])])]
  self := some "api.yaml"

/-- The one chain ends with a node, and the other is reported where it comes back. -/
theorem resolveAs_eq_limits :
    (∃ seen target place, chainResolver.Chain "#/limits/0" .root seen target place ∧ seen.Nodup ∧
        seen.length = 2 ∧ seen.length + 1 ≤ chainResolver.root.nodes + 2) ∧
      chainResolver.resolveAs (.ok ·) "#/limits/0" .root =
        .ok (⟨["named", "Limit"]⟩, .object [("maximum", .bool true)]) ∧
      chainResolver.resolveAs (α := Json) (.ok ·) "#/limits/1" .root =
        .error (.unresolvable "#/limits/01" ⟨["limits", "01"]⟩) := by
  have hplain : chainResolver.Chain "#/limits/0" .root
      [⟨["named", "Page size"]⟩, ⟨["limits", "0"]⟩] "#/named/Limit" ⟨["named", "Page size"]⟩ := by
    refine .step (.step .start (canonical_of_isSome ?_ ?_) rfl rfl) (canonical_of_isSome ?_ ?_)
      rfl rfl
    all_goals decide +kernel
  have hcircle : chainResolver.Chain "#/limits/1" .root
      [⟨["limits", "01"]⟩, ⟨["limits", "1"]⟩] "#/limits/01" ⟨["limits", "01"]⟩ := by
    refine .step (.step .start (canonical_of_isSome ?_ ?_) rfl rfl) (canonical_of_isSome ?_ ?_)
      rfl rfl
    all_goals decide +kernel
  obtain ⟨hbound, -, hend⟩ := resolveAs_eq_iff chainResolver (.ok ·) "#/limits/0" .root
  obtain ⟨-, -, hback⟩ := resolveAs_eq_iff (α := Json) chainResolver (.ok ·) "#/limits/1" .root
  refine ⟨⟨_, _, _, hplain, by decide, rfl, hbound _ _ _ hplain (by decide)⟩, (hend _).mpr ?_,
    (hback _).mpr ?_⟩
  · exact .decoded hplain (by decide) (canonical_of_isSome (by decide +kernel) (by decide +kernel))
      rfl rfl rfl
  · exact .repeated hcircle (by decide)
      (canonical_of_isSome (p := ⟨["limits", "01"]⟩) (by decide +kernel) (by decide +kernel))
      (by decide)

end Resolver

end ApiTypes
