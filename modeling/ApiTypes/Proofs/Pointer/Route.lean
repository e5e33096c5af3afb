/-
# Routes of pointers

A pointer leads to a node by the keys of objects and the positions in arrays that its segments
stand for.  A key is its segment, but a position has several spellings: a plus sign and zeros may
stand in front of it.  So two pointers to one node are the same pointer if both spell the positions
on their way in the same way, and not otherwise.

* `Pointer.route?` is the way of a pointer through a value; `Pointer.find?_eq_follow?` says that
  what is found depends on it alone.
* `Pointer.Plain` : positions are spelled as plain numbers.
* `Resolver.canonical_inj_iff`: when two references to one node have one pointer.
-/
import ApiTypes.Proofs.Json.Following
import ApiTypes.Proofs.Resolver

namespace ApiTypes

namespace Pointer

/-! ## 1. Routes -/

/-- One turn on the way to a node: to a field of an object, or to an item of an array. -/
inductive Turn where
  | key (key : String)
  | position (index : Nat)
  deriving DecidableEq, Repr

/-- The plain spelling of a turn. -/
def Turn.segment : Turn → String
  | key k => k
  | position i => toString i

/-- The node that a turn leads to. -/
def Turn.next? (v : Json) : Turn → Option Json
  | key k => v.asObject?.bind (Json.lookup k)
  | position i => v.asArray?.bind (·[i]?)

/-- The turn that a segment is taken for at a node. -/
def turn? (v : Json) (segment : String) : Option Turn :=
  match v with
  | .object _ => some (.key segment)
  | .array _ => (position? segment).map .position
  | _ => none

/-- The turns that segments are taken for, if they lead to a node. -/
def routeFrom? (v : Json) : List String → Option (List Turn)
  | [] => some []
  | s :: rest =>
    (turn? v s).bind fun t => (t.next? v).bind fun w => (routeFrom? w rest).map (t :: ·)

/-- The route of a pointer through a value, if the pointer names a node. -/
def route? (root : Json) (p : Pointer) : Option (List Turn) := routeFrom? root p.segments

/-- The node at the end of a route. -/
def follow? (v : Json) : List Turn → Option Json
  | [] => some v
  | t :: rest => (t.next? v).bind (follow? · rest)

theorem step?_eq (v : Json) (s : String) : step? v s = (turn? v s).bind (Turn.next? v) := by
  cases v with
  | object _ => rfl
  | array items =>
    rw [step?, turn?]
    cases position? s <;> rfl
  | null | bool _ | number _ | string _ => rfl

variable {root v w : Json} {p q : Pointer} {s s' : String} {t : Turn} {ss ss' : List String}
  {ts : List Turn}

/-- A route begins with the turn of the first segment. -/
theorem routeFrom?_cons : routeFrom? v (s :: ss) = some ts ↔
    ∃ t w rest, turn? v s = some t ∧ t.next? v = some w ∧ routeFrom? w ss = some rest ∧
      ts = t :: rest := by
  simp only [routeFrom?, Option.bind_eq_some_iff, Option.map_eq_some_iff]
  constructor
  · rintro ⟨t, ht, w, hw, rest, hrest, rfl⟩
    exact ⟨t, w, rest, ht, hw, hrest, rfl⟩
  · rintro ⟨t, w, rest, ht, hw, hrest, rfl⟩
    exact ⟨t, ht, w, hw, rest, hrest, rfl⟩

theorem findFrom?_eq : ∀ (v : Json) (ss : List String),
    findFrom? v ss = (routeFrom? v ss).bind (follow? v)
  | _, [] => rfl
  | v, s :: ss => by
    rw [findFrom?, step?_eq, routeFrom?]
    cases turn? v s with
    | none => rfl
    | some t =>
      simp only [Option.bind_some]
      cases hw : t.next? v with
      | none => rfl
      | some w =>
        simp only [Option.bind_some, findFrom?_eq w ss]
        cases routeFrom? w ss with
        | none => rfl
        | some rest => simp [follow?, hw]

/-- **What a pointer finds depends on its route alone.** -/
theorem find?_eq_follow? : p.find? root = (p.route? root).bind (follow? root) :=
  findFrom?_eq root p.segments

/-- A pointer that finds a node has a route. -/
theorem exists_route (h : p.find? root = some v) : ∃ ts, p.route? root = some ts := by
  rw [find?_eq_follow?] at h
  obtain ⟨ts, hts, _⟩ := Option.bind_eq_some_iff.mp h
  exact ⟨ts, hts⟩

/-! ## 2. Spellings -/

/-- A key is its segment. -/
theorem eq_of_turn_key {k : String} (h : turn? v s = some (.key k)) : s = k := by
  cases v with
  | object _ =>
    cases h
    rfl
  | array _ =>
    obtain ⟨_, _, h⟩ := Option.map_eq_some_iff.mp h
    cases h
  | null | bool _ | number _ | string _ => cases h

/-- Two lists of segments spell the positions of a route in the same way. -/
def SpelledAlike (ts : List Turn) (ss ss' : List String) : Prop :=
  ∀ n i : Nat, ts[n]? = some (Turn.position i) → ss[n]? = ss'[n]?

/-- Segments with one route are the same if those at positions are. -/
theorem eq_of_spelledAlike : ∀ {ss ss' : List String} {ts : List Turn} {v : Json},
    routeFrom? v ss = some ts → routeFrom? v ss' = some ts → SpelledAlike ts ss ss' → ss = ss'
  | [], [], _, _, _, _, _ => rfl
  | [], s :: ss, _, _, h, h', _ => by
    cases h
    obtain ⟨_, _, _, _, _, _, h⟩ := routeFrom?_cons.mp h'
    cases h
  | s :: ss, [], _, _, h, h', _ => by
    cases h'
    obtain ⟨_, _, _, _, _, _, h⟩ := routeFrom?_cons.mp h
    cases h
  | s :: ss, s' :: ss', _, v, h, h', halike => by
    obtain ⟨t, w, rest, ht, hw, hrest, rfl⟩ := routeFrom?_cons.mp h
    obtain ⟨t', w', rest', ht', hw', hrest', heq⟩ := routeFrom?_cons.mp h'
    cases heq
    cases hw.symm.trans hw'
    have hhead : s = s' := by
      cases t with
      | key k => rw [eq_of_turn_key ht, eq_of_turn_key ht']
      | position i => simpa using halike 0 i rfl
    have htail : ss = ss' := eq_of_spelledAlike hrest hrest' fun n i hn => by
      simpa using halike (n + 1) i hn
    rw [hhead, htail]

/-- **Every position on the way of a pointer is spelled as a plain number**, without a sign and
without zeros in front of it. -/
def Plain (root : Json) (p : Pointer) : Prop :=
  ∃ ts, p.route? root = some ts ∧ p.segments = ts.map Turn.segment

/-- A turn is taken where its plain spelling stands. -/
theorem turn?_segment (h : turn? v s = some t) : turn? v t.segment = some t := by
  cases v with
  | object _ =>
    cases h
    rfl
  | array _ =>
    obtain ⟨i, hi, rfl⟩ := Option.map_eq_some_iff.mp h
    rw [Turn.segment, turn?, position?_toString (lt_of_position? hi), Option.map_some]
  | null | bool _ | number _ | string _ => cases h

/-- The plain spelling of a route has it. -/
theorem routeFrom?_segments (h : routeFrom? v ss = some ts) :
    routeFrom? v (ts.map Turn.segment) = some ts := by
  induction ss generalizing v ts with
  | nil =>
    cases h
    rfl
  | cons s ss ih =>
    obtain ⟨t, w, rest, ht, hw, hrest, rfl⟩ := routeFrom?_cons.mp h
    exact routeFrom?_cons.mpr ⟨t, w, rest, turn?_segment ht, hw, ih hrest, rfl⟩

/-- Every route has one plain pointer. -/
theorem existsUnique_plain (h : p.route? root = some ts) :
    ∃! plain : Pointer, plain.Plain root ∧ plain.route? root = some ts := by
  have hroute : (⟨ts.map Turn.segment⟩ : Pointer).route? root = some ts := routeFrom?_segments h
  refine ⟨⟨ts.map Turn.segment⟩, ⟨⟨ts, hroute, rfl⟩, hroute⟩, ?_⟩
  rintro ⟨segments⟩ ⟨⟨ts', hts', hplain⟩, hts⟩
  cases hts'.symm.trans hts
  exact congrArg _ hplain

end Pointer

/-! ## 3. References to one node -/

/-- **Two references to one node have one pointer just if they spell the positions of arrays on
the way alike**, and so if both spell them as plain numbers; every node has one pointer that does. -/
theorem Resolver.canonical_inj_iff {r : Resolver} {target target' : String}
    {location location' p q : Pointer} (hp : r.canonical target location = .ok p)
    (hq : r.canonical target' location' = .ok q) (hroute : p.route? r.root = q.route? r.root) :
    ∃ ts, p.route? r.root = some ts ∧
      (p = q ↔ Pointer.SpelledAlike ts p.segments q.segments) ∧
      (p.Plain r.root → q.Plain r.root → p = q) ∧
      ∃! plain : Pointer, plain.Plain r.root ∧ plain.route? r.root = some ts := by
  obtain ⟨v, hv⟩ := find_of_canonical hp
  obtain ⟨ts, hts⟩ := Pointer.exists_route hv
  have hunique := Pointer.existsUnique_plain hts
  have hts' : q.route? r.root = some ts := hroute.symm.trans hts
  refine ⟨ts, hts, ⟨?_, fun halike => ?_⟩, fun hplain hplain' => ?_, hunique⟩
  · rintro rfl
    exact fun n i _ => rfl
  · have hsegments := Pointer.eq_of_spelledAlike hts hts' halike
    cases p
    cases q
    exact congrArg _ hsegments
  · exact hunique.unique ⟨hplain, hts⟩ ⟨hplain', hts'⟩

/-- A document with a list of parameters, and an address of its own. -/
def listResolver : Resolver where
  root := .object [("paths", .object [("/pets", .object [("parameters",
    .array [.object [("name", .string "id")], .object [("name", .string "limit")]])])])]
  self := some "https://example.com/api.yaml"

/-- Two spellings of a reference have one pointer. -/
theorem Resolver.canonical_inj_limit : ∃ p q,
    listResolver.canonical "#/paths/~1pets/parameters/1" .root = .ok p ∧
      listResolver.canonical "https://example.com/api.yaml#/paths/%2fpets/%70arameters/1" .root =
        .ok q ∧
      p.route? listResolver.root = q.route? listResolver.root ∧ p = q := by
  have hp : listResolver.canonical "#/paths/~1pets/parameters/1" .root =
      .ok ⟨["paths", "/pets", "parameters", "1"]⟩ :=
    canonical_of_isSome (by decide +kernel) (by decide +kernel)
  have hq : listResolver.canonical
      "https://example.com/api.yaml#/paths/%2fpets/%70arameters/1" .root =
        .ok ⟨["paths", "/pets", "parameters", "1"]⟩ :=
    canonical_of_isSome (by decide +kernel) (by decide +kernel)
  have hplain : Pointer.Plain listResolver.root ⟨["paths", "/pets", "parameters", "1"]⟩ :=
    ⟨[.key "paths", .key "/pets", .key "parameters", .position 1], by decide +kernel,
      by decide +kernel⟩
  obtain ⟨_, _, _, hinj, _⟩ := canonical_inj_iff hp hq rfl
  exact ⟨_, _, hp, hq, rfl, hinj hplain hplain⟩

/-- A position with a zero in front makes another pointer to the node. -/
theorem Resolver.exists_canonical_ne :
    ¬∀ (r : Resolver) (target target' : String) (location location' p q : Pointer),
      r.canonical target location = .ok p → r.canonical target' location' = .ok q →
        p.route? r.root = q.route? r.root → p = q := by
  intro hall
  have hp : listResolver.canonical "#/paths/~1pets/parameters/1" .root =
      .ok ⟨["paths", "/pets", "parameters", "1"]⟩ :=
    canonical_of_isSome (by decide +kernel) (by decide +kernel)
  have hq : listResolver.canonical "#/paths/~1pets/parameters/01" .root =
      .ok ⟨["paths", "/pets", "parameters", "01"]⟩ :=
    canonical_of_isSome (by decide +kernel) (by decide +kernel)
  have heq := hall listResolver _ _ _ _ _ _ hp hq (by decide +kernel)
  exact absurd heq (by decide)

end ApiTypes
