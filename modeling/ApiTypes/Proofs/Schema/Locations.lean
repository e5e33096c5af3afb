/-
# Where the schemas of a value stand

A sorted schema is typed under the pointer of the raw schema that it was made from, and the schemas
in it under longer pointers.  All of them lead back to the raw schemas, with one exception: a list
of types that is sorted into alternatives has no schemas in it, but its alternatives are typed under
the pointers that the members of an `anyOf` would have.  What stands there, as far as the typing is
concerned, is the schema object with the list.

* `Schema.Splits fs`: the schema object has such a list of types.
* `Schema.Way v segments w`: the segments lead from `v` to `w`, in steps of pointers and of such
  alternatives; `Schema.Way.find` compares them with pointers.
* `Schema.placed_ofJson`: sorting puts schemas and references where such ways lead to them.
-/
import ApiTypes.Proofs.Json.Following
import ApiTypes.Proofs.Schema.Names
import ApiTypes.Proofs.Typing.Faults

namespace ApiTypes.Schema

/-! ## 1. Ways -/

/-- The types that are sorted into alternatives. -/
def alternativeTypes (fs : List (String × Json)) : List String :=
  (declaredTypes fs).filter (· ≠ "null")

/-- The list of types of a schema object is sorted into alternatives, unless a combination comes
first: there are several, lists or objects among them, and neither a reference nor listed values
decide. -/
structure Splits (fs : List (String × Json)) : Prop where
  free : ∀ target, Json.lookup "$ref" fs ≠ some (.string target)
  unlisted : (hasKey fs "enum" || hasKey fs "const") = false
  several : 1 < (alternativeTypes fs).length
  mixed : (alternativeTypes fs).any (fun t => t = "array" || t = "object") = true

/-- The segments lead from a value to another one, where the alternatives of a list of types stand
in the schema object that has the list. -/
inductive Way : Json → List String → Json → Prop
  | here (v : Json) : Way v [] v
  | step {v w x : Json} {segment : String} {rest : List String}
      (h : Pointer.step? v segment = some w) (onward : Way w rest x) : Way v (segment :: rest) x
  | alternative {fs : List (String × Json)} {i : Nat} {x : Json} {rest : List String}
      (h : Splits fs) (hi : i < (alternativeTypes fs).length)
      (onward : Way (.object fs) rest x) : Way (.object fs) ("anyOf" :: toString i :: rest) x

/-- Some segments go through an alternative of a list of types. -/
def PassesAlternative (v : Json) (segments : List String) : Prop :=
  ∃ before fs i rest, segments = before ++ "anyOf" :: toString i :: rest ∧
    Pointer.findFrom? v before = some (.object fs) ∧ Splits fs ∧
    i < (alternativeTypes fs).length

variable {v w x : Json} {xs ys : List String}

theorem Way.trans (h : Way v xs w) (h' : Way w ys x) : Way v (xs ++ ys) x := by
  induction h with
  | here => exact h'
  | step hs _ ih => exact .step hs (ih h')
  | alternative hs hi _ ih => exact .alternative hs hi (ih h')

/-- Pointers are ways. -/
theorem way_of_find : ∀ {xs : List String} {v : Json}, Pointer.findFrom? v xs = some w → Way v xs w
  | [], _, h => by
    cases h
    exact .here w
  | _ :: _, _, h => by
    obtain ⟨_, hs, h⟩ := Option.bind_eq_some_iff.mp h
    exact .step hs (way_of_find h)

/-- **Ways are pointers**, unless they go through an alternative of a list of types. -/
theorem Way.find (h : Way v xs w) : Pointer.findFrom? v xs = some w ∨ PassesAlternative v xs := by
  induction h with
  | here => exact Or.inl rfl
  | @step v w' _ segment _ hs _ ih =>
    rcases ih with ih | ⟨before, fs, i, rest, rfl, hf, hsplits, hi⟩
    · refine Or.inl ?_
      rw [Pointer.findFrom?, hs, Option.bind_some, ih]
    · refine Or.inr ⟨segment :: before, fs, i, rest, rfl, ?_, hsplits, hi⟩
      rw [Pointer.findFrom?, hs, Option.bind_some, hf]
  | alternative hs hi _ _ => exact Or.inr ⟨[], _, _, _, rfl, rfl, hs, hi⟩

/-- A way leads to a node of the value, under a pointer without the alternatives. -/
theorem Way.exists_find (h : Way v xs w) :
    ∃ ys, ys.Sublist xs ∧ Pointer.findFrom? v ys = some w := by
  induction h with
  | here => exact ⟨[], .slnil, rfl⟩
  | @step v w' _ segment _ hs _ ih =>
    obtain ⟨ys, hys, hf⟩ := ih
    refine ⟨segment :: ys, hys.cons_cons segment, ?_⟩
    rw [Pointer.findFrom?, hs, Option.bind_some, hf]
  | alternative _ _ _ ih =>
    obtain ⟨ys, hys, hf⟩ := ih
    exact ⟨ys, (hys.cons _).cons _, hf⟩

theorem Way.uniqueKeys (h : Way v xs w) (hv : v.UniqueKeys) : w.UniqueKeys := by
  induction h with
  | here => exact hv
  | @step v w' _ segment _ hs _ ih =>
    refine ih (hv.find? (p := ⟨[segment]⟩) ?_)
    rw [Pointer.find?, Pointer.findFrom?, hs]
    rfl
  | alternative _ _ _ ih => exact ih hv

theorem Way.addressable (h : Way v xs w) (hv : v.Addressable) : w.Addressable := by
  induction h with
  | here => exact hv
  | step hs _ ih => exact ih (hv.step hs)
  | alternative _ _ _ ih => exact ih hv

/-- The places of a value: a way leads there, and to a node with the reference if there is one. -/
def placesIn (root : Json) : Places := fun p reference =>
  ∃ v, Way root p.segments v ∧ ∀ target, reference = some target → Resolver.next? v = some target

section Steps

variable {root : Json} {p : Pointer}

theorem placesIn_none (h : Way root p.segments v) : placesIn root p none :=
  ⟨v, h, fun _ heq => by cases heq⟩

theorem way_child {segment : String} (h : Way root p.segments v)
    (hs : Pointer.step? v segment = some w) : Way root (p.child segment).segments w :=
  h.trans (.step hs (.here w))

theorem way_alternative {fs : List (String × Json)} {i : Nat}
    (h : Way root p.segments (.object fs)) (hs : Splits fs)
    (hi : i < (alternativeTypes fs).length) :
    Way root ((p.child "anyOf").item i).segments (.object fs) := by
  have hway := h.trans (.alternative hs hi (.here _))
  rwa [List.append_cons] at hway

end Steps

/-! ## 2. The steps of sorting -/

/-- The schemas handed up from inside a raw schema are placed below its pointer. -/
structure Nested.Placed (At : Places) (p : Pointer) (nested : Nested) : Prop where
  allOf : ∀ i (s : Schema), nested.allOf[i]? = some s → s.Placed At ((p.child "allOf").item i)
  oneOf : ∀ i (s : Schema), nested.oneOf[i]? = some s → s.Placed At ((p.child "oneOf").item i)
  anyOf : ∀ i (s : Schema), nested.anyOf[i]? = some s → s.Placed At ((p.child "anyOf").item i)
  items : ∀ s : Schema, nested.items = some s → s.Placed At (p.child "items")
  properties : ∀ q ∈ nested.properties, q.2.Placed At ((p.child "properties").child q.1)
  additional : ∀ s : Schema, nested.additional = .schema s →
    s.Placed At (p.child "additionalProperties")

section Sorting

variable {At : Places} {p : Pointer} {fs : List (String × Json)} {nested : Nested}

theorem placed_single {types : List String} {t : Traits} (here : At p none)
    (h : nested.Placed At p) : (single fs nested types t).Placed At p := by
  unfold single
  simp only
  split_ifs
  · exact .array here h.items
  · exact .object here h.properties h.additional
  · split
    · exact .scalar here
    · exact .unknown here

variable (here : At p none) (h : nested.Placed At p)
  (alternatives : Splits fs → ∀ i < (alternativeTypes fs).length,
    At ((p.child "anyOf").item i) none ∧ nested.Placed At ((p.child "anyOf").item i))
  (free : ∀ target, Json.lookup "$ref" fs ≠ some (.string target))
  (unlisted : (hasKey fs "enum" || hasKey fs "const") = false)

include here h alternatives

include free unlisted in
theorem placed_uncombined {t : Traits} :
    (uncombined fs nested (declaredTypes fs) t).Placed At p := by
  unfold uncombined
  simp only
  split_ifs with hsplits
  · rw [Bool.and_eq_true, decide_eq_true_eq] at hsplits
    have hs : Splits fs := ⟨free, unlisted, hsplits.1, hsplits.2⟩
    refine .composed here (fun _ _ hi => by cases hi) (fun _ _ hi => by cases hi) ?_
      fun _ hbase => by cases hbase
    intro i s hi
    obtain ⟨name, hname, rfl⟩ := List.getElem?_map ▸ hi |> Option.map_eq_some_iff.mp
    obtain ⟨hlength, _⟩ := List.getElem?_eq_some_iff.mp hname
    obtain ⟨hhere, hnested⟩ := alternatives hs i hlength
    exact placed_single hhere hnested
  · exact placed_single here h

theorem placed_ofFields (reference : ∀ target, Json.lookup "$ref" fs = some (.string target) →
    At p (some target)) : (ofFields fs nested).Placed At p := by
  unfold ofFields
  simp only
  split
  · rename_i target htarget
    exact .reference here (reference target htarget)
  · rename_i hfree
    have hfree : ∀ target, Json.lookup "$ref" fs ≠ some (.string target) :=
      fun target htarget => hfree target htarget
    split_ifs with hlisted hcombined
    · exact .enumerated here
    · have hunlisted := Bool.eq_false_iff.mpr hlisted
      refine .composed here h.allOf h.oneOf h.anyOf fun s hs => ?_
      unfold baseOf at hs
      simp only at hs
      split_ifs at hs
      cases hs
      exact placed_uncombined here h alternatives hfree hunlisted
    · exact placed_uncombined here h alternatives hfree (Bool.eq_false_iff.mpr hlisted)

end Sorting

/-! ## 3. Whole schemas -/

section Values

variable {root : Json} {p : Pointer} {fs : List (String × Json)}

/-- The schemas in a list stand at their positions. -/
theorem placed_listAt (ha : root.Addressable) {key : String}
    (hkey : key ∈ ["allOf", "oneOf", "anyOf"]) (hp : Way root p.segments (.object fs))
    (h : ∀ s q, Part s (.object fs) → Way root q.segments s →
      (ofJson s).Placed (placesIn root) q) :
    ∀ i (s : Schema), (listAt fs key)[i]? = some s →
      s.Placed (placesIn root) ((p.child key).item i) := by
  by_cases hl : ∃ schemas, Json.lookup key fs = some (.array schemas)
  · obtain ⟨schemas, hl⟩ := hl
    intro i s hs
    rw [listAt_eq_map hl, List.getElem?_map] at hs
    obtain ⟨raw, hraw, rfl⟩ := Option.map_eq_some_iff.mp hs
    have hlist : Way root (p.child key).segments (.array schemas) := way_child hp hl
    obtain ⟨hi, _⟩ := List.getElem?_eq_some_iff.mp hraw
    refine h raw _ (.member hkey hl (List.mem_of_getElem? hraw)) (way_child hlist ?_)
    rw [Pointer.step?_item (hlist.addressable ha).length hi, hraw]
  · rw [listAt_eq_nil fun schemas h => hl ⟨schemas, h⟩]
    intro i s hs
    cases hs

theorem placed_nestedIn (hk : root.UniqueKeys) (ha : root.Addressable)
    (hp : Way root p.segments (.object fs))
    (h : ∀ s q, Part s (.object fs) → Way root q.segments s →
      (ofJson s).Placed (placesIn root) q) : (nestedIn fs).Placed (placesIn root) p := by
  rw [nestedIn_eq]
  refine ⟨placed_listAt ha (by simp) hp h, placed_listAt ha (by simp) hp h,
    placed_listAt ha (by simp) hp h, ?_, ?_, ?_⟩
  · intro s hs
    obtain ⟨raw, hraw, rfl⟩ := Option.map_eq_some_iff.mp hs
    exact h raw _ (.items hraw) (way_child hp hraw)
  · intro q hq
    cases hl : Json.lookup "properties" fs with
    | none =>
      rw [hl] at hq
      cases hq
    | some raw =>
      rw [hl] at hq
      have hway : Way root (p.child "properties").segments raw := way_child hp hl
      cases raw with
      | object properties =>
        rw [Option.map_some, Option.getD_some, ofProperties, ofPropertyList_eq_map] at hq
        obtain ⟨e, he, rfl⟩ := List.mem_map.mp hq
        refine h e.2 _ (.property hl he) (way_child hway ?_)
        exact (Json.lookup_iff_mem (hway.uniqueKeys hk).nodup).mpr he
      | null | bool _ | number _ | string _ | array _ => cases hq
  · intro s hs
    cases hl : Json.lookup "additionalProperties" fs with
    | none =>
      rw [hl] at hs
      cases hs
    | some raw =>
      rw [hl] at hs
      have hplaced := h raw _ (.additional hl) (way_child hp hl)
      cases raw with
      | bool b => cases hs
      | null | number _ | string _ | array _ | object _ =>
        cases hs
        exact hplaced

/-- **Sorting puts every schema and every reference where a way leads to it.** -/
theorem placed_ofJson (hk : root.UniqueKeys) (ha : root.Addressable) (v : Json) :
    ∀ p : Pointer, Way root p.segments v → (ofJson v).Placed (placesIn root) p := by
  -- the pointer varies in the induction: alternatives read the fields of one object again, each
  -- under a pointer of its own
  induction v using Part.induction with
  | step v ih =>
    intro p hp
    have here := placesIn_none hp
    cases v with
    | object fs =>
      have hparts : ∀ q : Pointer, Way root q.segments (.object fs) →
          (nestedIn fs).Placed (placesIn root) q :=
        fun q hq => placed_nestedIn hk ha hq fun s q hs hq => ih s hs q hq
      rw [ofJson]
      refine placed_ofFields here (hparts p hp) ?_ fun target htarget => ⟨_, hp, ?_⟩
      · intro hs i hi
        have hway := way_alternative hp hs hi
        exact ⟨placesIn_none hway, hparts _ hway⟩
      · intro target' heq
        cases heq
        rw [Resolver.next?, Json.field?, Json.fields, htarget]
        rfl
    | bool b =>
      cases b with
      | false => exact .enumerated here
      | true => exact .unknown here
    | null | number _ | string _ | array _ => exact .unknown here

end Values

end ApiTypes.Schema
