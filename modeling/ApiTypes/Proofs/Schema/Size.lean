/-
# The size of sorted schemas

Sorting hands the nested schemas down to every schema that is made of the same fields: a base, and
the alternatives for the types of a list.  Most of these copies ask for different keywords.  The
alternatives for arrays keep the items and those for objects keep the properties, so a schema is
copied only where one of the two types is named repeatedly in a list of types, and there the copies
multiply from level to level.

* `Json.weight` counts the nodes of a raw schema, each as often as it may be copied.
* `Schema.count_ofJson_le`: a sorted schema has no more schemas than its text has weight.
* `Schema.TypesOnce`: no list of types names arrays or objects twice;
  `Schema.weight_eq_nodes`: then every node counts once.
* `Schema.count_le_of_typesOnce`: what follows for the size of a sorted schema.
-/
import ApiTypes.Proofs.Resolver.Chains
import ApiTypes.Proofs.Schema.Nested

namespace ApiTypes

/-! ## 1. Weight -/

namespace Json

/-- How often the schemas under a keyword may be copied, given the types that stand beside it. -/
def copies (types : List String) (key : String) : Nat :=
  if key = "items" then max 1 (types.count "array")
  else if key = "properties" ∨ key = "additionalProperties" then max 1 (types.count "object")
  else 1

mutual
/-- The number of nodes of a value, those that may be copied counted as often. -/
def weight : Json → Nat
  | array xs => 1 + weightItems xs
  | object fs => 1 + weightFields (Schema.declaredTypes fs) fs
  | _ => 1

/-- The weight of the items of an array. -/
def weightItems : List Json → Nat
  | [] => 0
  | x :: xs => weight x + weightItems xs

/-- The weight of the fields of an object that declares some types. -/
def weightFields (types : List String) : List (String × Json) → Nat
  | [] => 0
  | (key, v) :: rest => copies types key * weight v + weightFields types rest
end

theorem one_le_copies (types : List String) (key : String) : 1 ≤ copies types key := by
  unfold copies
  split_ifs <;> omega

theorem weight_pos (v : Json) : 0 < v.weight := by
  cases v with
  | array | object =>
    rw [weight]
    omega
  | null | bool | number | string => exact Nat.one_pos

/-- The weight of the field under a keyword. -/
def weightAt (types : List String) (fs : List (String × Json)) (key : String) : Nat :=
  match lookup key fs with
  | none => 0
  | some v => copies types key * v.weight

/-- The fields under different keywords are different fields. -/
theorem sum_weightAt_le (types : List String) {keys : List String} (hkeys : keys.Nodup)
    (fs : List (String × Json)) : (keys.map (weightAt types fs)).sum ≤ weightFields types fs := by
  induction fs generalizing keys with
  | nil =>
    have hzero : ∀ key ∈ keys, weightAt types [] key = 0 := fun _ _ => rfl
    rw [List.map_congr_left hzero, List.map_const', List.sum_replicate_nat, Nat.mul_zero]
    exact Nat.zero_le _
  | cons f rest ih =>
    obtain ⟨key, v⟩ := f
    have hother : ∀ k, k ≠ key → weightAt types ((key, v) :: rest) k = weightAt types rest k := by
      intro k hk
      rw [weightAt, weightAt, lookup, if_neg hk.symm]
    rw [weightFields]
    by_cases hmem : key ∈ keys
    · have hsame : weightAt types ((key, v) :: rest) key = copies types key * v.weight := by
        rw [weightAt, lookup, if_pos rfl]
      have hrest : (keys.erase key).map (weightAt types ((key, v) :: rest)) =
          (keys.erase key).map (weightAt types rest) :=
        List.map_congr_left fun k hk => hother k (hkeys.mem_erase_iff.mp hk).1
      rw [((List.perm_cons_erase hmem).map _).sum_nat, List.map_cons, List.sum_cons, hsame, hrest]
      exact Nat.add_le_add_left (ih (hkeys.erase key)) _
    · have hrest : keys.map (weightAt types ((key, v) :: rest)) =
          keys.map (weightAt types rest) :=
        List.map_congr_left fun k hk => hother k fun heq => hmem (heq ▸ hk)
      rw [hrest]
      exact Nat.le_add_left_of_le (ih hkeys)

/-- What is under a keyword has its share of the weight. -/
theorem le_weightAt {types : List String} {fs : List (String × Json)} {key : String} {v : Json}
    (h : lookup key fs = some v) : v.weight ≤ weightAt types fs key := by
  rw [weightAt, h]
  exact Nat.le_mul_of_pos_left _ (one_le_copies types key)

end Json

namespace Schema

variable (fs : List (String × Json)) (nested : Nested) (types : List String) (traits : Traits)

/-! ## 2. Types -/

/-- The schemas of the items, as a number. -/
def Nested.itemCount (nested : Nested) : Nat := countOption nested.items

/-- The schemas of the members of an object, as a number. -/
def Nested.memberCount (nested : Nested) : Nat :=
  countProperties nested.properties + countAdditional nested.additional

/-- The schemas of the combined schemas, as a number. -/
def Nested.combinedCount (nested : Nested) : Nat :=
  countList nested.allOf + countList nested.oneOf + countList nested.anyOf

/-- A schema of one kind keeps the items, or the members, or neither. -/
theorem count_single_le :
    (single fs nested types traits).count ≤ 1 + nested.itemCount + nested.memberCount := by
  unfold single Nested.itemCount Nested.memberCount
  dsimp only
  split_ifs
  · rw [count]
    omega
  · rw [count]
    omega
  · split <;> exact Nat.le_add_right_of_le (Nat.le_add_right 1 _)

/-- An alternative keeps the items if it is for arrays, and the members if it is for objects. -/
theorem count_single_type_le {t : String} (ht : t ≠ "null") :
    (single fs nested [t] traits).count ≤ 1 + [t].count "array" * nested.itemCount +
      [t].count "object" * nested.memberCount := by
  have hnames : [t].filter (· ≠ "null") = [t] := by simp [ht]
  unfold single Nested.itemCount Nested.memberCount
  dsimp only
  rw [hnames]
  simp only [List.head?_cons, Option.some.injEq, List.cons_ne_nil, decide_false, Bool.false_and,
    Bool.or_false, decide_eq_true_eq]
  split_ifs with harray hobject
  · rw [harray, count, List.count_singleton_self, Nat.one_mul]
    exact Nat.le_add_right _ _
  · rw [hobject, count, List.count_singleton_self, Nat.one_mul, ← Nat.add_assoc]
    omega
  · split <;> exact Nat.le_add_right_of_le (Nat.le_add_right 1 _)

/-- The alternatives for some types. -/
theorem countList_single_le {names : List String} (hnames : "null" ∉ names) :
    countList (names.map fun t => single fs nested [t] traits) ≤
      names.length + names.count "array" * nested.itemCount +
        names.count "object" * nested.memberCount := by
  induction names with
  | nil => simp [countList]
  | cons t rest ih =>
    rw [List.mem_cons, not_or] at hnames
    have hfirst := count_single_type_le fs nested traits (Ne.symm hnames.1)
    have hrest := ih hnames.2
    have hcount (name : String) : (t :: rest).count name = [t].count name + rest.count name := by
      rw [← List.count_append, List.singleton_append]
    rw [List.map_cons, countList, List.length_cons, hcount, hcount, Nat.add_mul, Nat.add_mul]
    omega

/-- How many alternatives a list of types can make. -/
def splitCount (types : List String) : Nat := if types.length > 1 then types.length else 0

/-- A schema without combination has the items as often as arrays are among the types, and the
members as often as objects are. -/
theorem count_uncombined_le :
    (uncombined fs nested types traits).count ≤ 1 + splitCount types +
      max 1 (types.count "array") * nested.itemCount +
        max 1 (types.count "object") * nested.memberCount := by
  have hitems := Nat.mul_le_mul_right nested.itemCount (Nat.le_max_right 1 (types.count "array"))
  have hmembers :=
    Nat.mul_le_mul_right nested.memberCount (Nat.le_max_right 1 (types.count "object"))
  unfold uncombined
  dsimp only
  split_ifs with hsplit
  · have hcount (name : String) (hname : name ≠ "null") :
        (types.filter (· ≠ "null")).count name = types.count name :=
      List.count_filter (by simpa using hname)
    have hlist := countList_single_le fs nested
      { traits with title := none, description := none, nullable := false }
      (show "null" ∉ types.filter (· ≠ "null") by simp)
    rw [hcount "array" (by decide), hcount "object" (by decide)] at hlist
    have hlength : (types.filter (· ≠ "null")).length ≤ types.length := List.length_filter_le _ _
    have hmany : 1 < (types.filter (· ≠ "null")).length := by
      simp only [gt_iff_lt, Bool.and_eq_true, decide_eq_true_eq] at hsplit
      exact hsplit.1
    rw [count, countList, countOption, splitCount, if_pos (Nat.lt_of_lt_of_le hmany hlength)]
    omega
  · have hsingle := count_single_le fs nested types traits
    have hitems' := Nat.mul_le_mul_right nested.itemCount (Nat.le_max_left 1 (types.count "array"))
    have hmembers' :=
      Nat.mul_le_mul_right nested.memberCount (Nat.le_max_left 1 (types.count "object"))
    omega

/-! ## 3. Keywords -/

variable {fs}

section Keywords

variable (ih : ∀ s, Part s (.object fs) → (ofJson s).count ≤ s.weight)

theorem countList_map_le {schemas : List Json}
    (h : ∀ s ∈ schemas, (ofJson s).count ≤ s.weight) :
    countList (schemas.map ofJson) ≤ Json.weightItems schemas := by
  induction schemas with
  | nil => exact Nat.le_refl 0
  | cons s rest ihrest =>
    obtain ⟨hs, hrest⟩ := List.forall_mem_cons.mp h
    rw [List.map_cons, countList, Json.weightItems]
    exact Nat.add_le_add hs (ihrest hrest)

theorem countProperties_map_le {properties : List (String × Json)}
    (h : ∀ e ∈ properties, (ofJson e.2).count ≤ e.2.weight) :
    countProperties (properties.map fun e => (e.1, ofJson e.2)) ≤
      Json.weightFields types properties := by
  induction properties with
  | nil => exact Nat.le_refl 0
  | cons e rest ihrest =>
    obtain ⟨he, hrest⟩ := List.forall_mem_cons.mp h
    rw [List.map_cons, countProperties, Json.weightFields]
    exact Nat.add_le_add
      (Nat.le_trans he (Nat.le_mul_of_pos_left _ (Json.one_le_copies types e.1))) (ihrest hrest)

include ih

/-- The list of combined schemas is one node more than its schemas. -/
theorem countList_listAt_lt {key : String} (hkey : key ∈ ["allOf", "oneOf", "anyOf"])
    (h : hasKey fs key = true) :
    countList (listAt fs key) < Json.weightAt types fs key := by
  obtain ⟨v, hv⟩ := Option.isSome_iff_exists.mp h
  refine Nat.lt_of_lt_of_le ?_ (Json.le_weightAt hv)
  by_cases harray : ∃ schemas, v = .array schemas
  · obtain ⟨schemas, rfl⟩ := harray
    have hle := countList_map_le fun s hs => ih s (.member hkey hv hs)
    rw [listAt_eq_map hv, Json.weight]
    omega
  · have hnil : listAt fs key = [] := listAt_eq_nil fun schemas hs => by
      rw [hv] at hs
      exact harray ⟨schemas, Option.some.inj hs⟩
    rw [hnil]
    exact v.weight_pos

theorem itemCount_le :
    max 1 (types.count "array") * (nestedIn fs).itemCount ≤ Json.weightAt types fs "items" := by
  rw [nestedIn_eq, Nested.itemCount, Json.weightAt]
  cases hv : Json.lookup "items" fs with
  | none => exact Nat.le_refl 0
  | some s => exact Nat.mul_le_mul_left _ (ih s (.items hv))

theorem memberCount_le :
    max 1 (types.count "object") * (nestedIn fs).memberCount ≤
      Json.weightAt types fs "properties" + Json.weightAt types fs "additionalProperties" := by
  rw [nestedIn_eq, Nested.memberCount, Json.weightAt, Json.weightAt, Nat.mul_add]
  refine Nat.add_le_add ?_ ?_
  · cases hv : Json.lookup "properties" fs with
    | none => exact Nat.le_refl 0
    | some v =>
      refine Nat.mul_le_mul_left _ ?_
      cases v with
      | object properties =>
        have hle := countProperties_map_le (declaredTypes properties)
          fun e he => ih e.2 (.property hv he)
        rw [Option.map_some, Option.getD_some, ofProperties, ofPropertyList_eq_map, Json.weight]
        exact Nat.le_add_left_of_le hle
      | null | bool | number | string | array => exact Nat.zero_le _
  · cases hv : Json.lookup "additionalProperties" fs with
    | none => exact Nat.le_refl 0
    | some s =>
      refine Nat.mul_le_mul_left _ ?_
      have hs := ih s (.additional hv)
      cases s with
      | bool allowed => exact Nat.zero_le _
      | null | number | string | array | object => exact hs

omit ih

/-- A list of types has a node for each of them. -/
theorem splitCount_le : splitCount (declaredTypes fs) ≤ Json.weightAt types fs "type" := by
  have hitems (items : List Json) : items.length ≤ Json.weightItems items := by
    induction items with
    | nil => exact Nat.le_refl 0
    | cons x rest ih =>
      have hx := x.weight_pos
      rw [List.length_cons, Json.weightItems]
      omega
  unfold splitCount declaredTypes
  split
  · exact Nat.zero_le _
  · rename_i items hv
    have hlength : (items.filterMap Json.asString?).length ≤ items.length :=
      List.length_filterMap_le _ _
    have hshare : (Json.array items).weight ≤ Json.weightAt types fs "type" := Json.le_weightAt hv
    have hweight := hitems items
    rw [Json.weight] at hshare
    split <;> omega
  · exact Nat.zero_le _

end Keywords

/-! ## 4. Schemas -/

/-- The keywords under which the text of a schema has its weight. -/
def weighedKeys : List String :=
  ["allOf", "oneOf", "anyOf", "type", "items", "properties", "additionalProperties"]

/-- The combined schemas of a combination; the list in which they stand is a node more. -/
theorem combinedCount_lt (ih : ∀ s, Part s (.object fs) → (ofJson s).count ≤ s.weight)
    (h : (hasKey fs "allOf" || hasKey fs "oneOf" || hasKey fs "anyOf") = true) :
    (nestedIn fs).combinedCount < Json.weightAt types fs "allOf" +
      Json.weightAt types fs "oneOf" + Json.weightAt types fs "anyOf" := by
  have hle (key : String) (hkey : key ∈ ["allOf", "oneOf", "anyOf"]) :
      countList (listAt fs key) + (if hasKey fs key then 1 else 0) ≤
        Json.weightAt types fs key := by
    split_ifs with hkey'
    · exact countList_listAt_lt types ih hkey hkey'
    · have hnone : Json.lookup key fs = none := by
        rwa [hasKey, Option.not_isSome_iff_eq_none] at hkey'
      rw [listAt, hnone]
      exact Nat.zero_le _
  have hall := hle "allOf" (by decide)
  have hone := hle "oneOf" (by decide)
  have hany := hle "anyOf" (by decide)
  simp only [Bool.or_eq_true] at h
  simp only [Nested.combinedCount, nestedIn_eq]
  rcases h with (h | h) | h
  · rw [if_pos h] at hall
    omega
  · rw [if_pos h] at hone
    omega
  · rw [if_pos h] at hany
    omega

/-- What a schema says about itself, by its types and the keywords of arrays and objects. -/
theorem count_uncombined_nestedIn_le
    (ih : ∀ s, Part s (.object fs) → (ofJson s).count ≤ s.weight) :
    (uncombined fs (nestedIn fs) (declaredTypes fs) traits).count ≤ 1 +
      (Json.weightAt (declaredTypes fs) fs "type" + Json.weightAt (declaredTypes fs) fs "items" +
        Json.weightAt (declaredTypes fs) fs "properties" +
        Json.weightAt (declaredTypes fs) fs "additionalProperties") := by
  have hcount := count_uncombined_le fs (nestedIn fs) (declaredTypes fs) traits
  have htypes : splitCount (declaredTypes fs) ≤ Json.weightAt (declaredTypes fs) fs "type" :=
    splitCount_le _
  have hitems := itemCount_le (declaredTypes fs) ih
  have hmembers := memberCount_le (declaredTypes fs) ih
  omega

/-- A schema of any kind, by its keywords. -/
theorem count_ofFields_le (ih : ∀ s, Part s (.object fs) → (ofJson s).count ≤ s.weight) :
    (ofFields fs (nestedIn fs)).count ≤ (Json.object fs).weight := by
  have hsum := Json.sum_weightAt_le (declaredTypes fs) (show weighedKeys.Nodup by decide) fs
  have hown (traits : Traits) := count_uncombined_nestedIn_le traits ih
  simp only [weighedKeys, List.map_cons, List.map_nil, List.sum_cons, List.sum_nil] at hsum
  rw [Json.weight]
  unfold ofFields
  dsimp only
  split
  · exact Nat.le_add_right 1 _
  · split_ifs with hlisted hcombined
    · exact Nat.le_add_right 1 _
    · have hcombination := combinedCount_lt (declaredTypes fs) ih hcombined
      have hbase : countOption (baseOf fs (nestedIn fs)) ≤ 1 +
          (Json.weightAt (declaredTypes fs) fs "type" +
            Json.weightAt (declaredTypes fs) fs "items" +
            Json.weightAt (declaredTypes fs) fs "properties" +
            Json.weightAt (declaredTypes fs) fs "additionalProperties") := by
        unfold baseOf
        dsimp only
        split_ifs
        · exact hown _
        · exact Nat.zero_le _
      rw [Nested.combinedCount] at hcombination
      rw [count]
      omega
    · have hle := hown (readTraits fs)
      omega

/-- **A sorted schema has no more schemas than its text has weight.** -/
theorem count_ofJson_le (v : Json) : (ofJson v).count ≤ v.weight := by
  induction v using Part.induction with
  | step S ih =>
    have hpos := S.weight_pos
    cases S with
    | null | number | string | array => exact hpos
    | bool b => cases b <;> exact hpos
    | object fs =>
      rw [ofJson]
      exact count_ofFields_le ih

/-! ## 5. Types that are named once -/

/-- No object in a value names arrays or objects more than once among its types. -/
def TypesOnce (v : Json) : Prop :=
  ∀ w ∈ v.values, (declaredTypes w.fields).count "array" ≤ 1 ∧
    (declaredTypes w.fields).count "object" ≤ 1

instance (v : Json) : Decidable (TypesOnce v) :=
  inferInstanceAs (Decidable (∀ w ∈ v.values, (declaredTypes w.fields).count "array" ≤ 1 ∧
    (declaredTypes w.fields).count "object" ≤ 1))

theorem copies_eq_one {types : List String} (harray : types.count "array" ≤ 1)
    (hobject : types.count "object" ≤ 1) (key : String) : Json.copies types key = 1 := by
  unfold Json.copies
  split_ifs <;> omega

mutual
/-- If the types are named once, every node counts once. -/
theorem weight_eq_nodes : ∀ v : Json, TypesOnce v → v.weight = v.nodes
  | .array xs, h => by
    rw [TypesOnce, Json.values, List.forall_mem_cons] at h
    rw [Json.weight, Json.nodes, weightItems_eq_nodes xs h.2]
  | .object fs, h => by
    rw [TypesOnce, Json.values, List.forall_mem_cons] at h
    have hcopies : ∀ key, Json.copies (declaredTypes fs) key = 1 := copies_eq_one h.1.1 h.1.2
    rw [Json.weight, Json.nodes, weightFields_eq_nodes hcopies fs h.2]
  | .null, _ | .bool _, _ | .number _, _ | .string _, _ => rfl

theorem weightItems_eq_nodes : ∀ xs : List Json,
    (∀ w ∈ Json.valuesItems xs, (declaredTypes w.fields).count "array" ≤ 1 ∧
      (declaredTypes w.fields).count "object" ≤ 1) →
    Json.weightItems xs = Json.nodesItems xs
  | [], _ => rfl
  | x :: xs, h => by
    rw [Json.valuesItems, List.forall_mem_append] at h
    rw [Json.weightItems, Json.nodesItems, weight_eq_nodes x h.1, weightItems_eq_nodes xs h.2]

theorem weightFields_eq_nodes {types : List String} (hcopies : ∀ key, Json.copies types key = 1) :
    ∀ gs : List (String × Json),
      (∀ w ∈ Json.valuesFields gs, (declaredTypes w.fields).count "array" ≤ 1 ∧
        (declaredTypes w.fields).count "object" ≤ 1) →
      Json.weightFields types gs = Json.nodesFields gs
  | [], _ => rfl
  | (key, v) :: gs, h => by
    rw [Json.valuesFields, List.forall_mem_append] at h
    rw [Json.weightFields, Json.nodesFields, hcopies, Nat.one_mul, weight_eq_nodes v h.1,
      weightFields_eq_nodes hcopies gs h.2]
end

/-- **Sorting multiplies no schema, unless arrays or objects are named twice in one list of
types.**  If they are not, there are no more schemas than nodes; in any case there are no more than
nodes when each counts as often as the type is named for which it is copied. -/
theorem count_le_of_typesOnce (v : Json) :
    (TypesOnce v → (ofJson v).count ≤ v.nodes) ∧ (ofJson v).count ≤ v.weight :=
  ⟨fun h => weight_eq_nodes v h ▸ count_ofJson_le v, count_ofJson_le v⟩

/-- A schema for arrays and for objects, whose items are a combination with two types of its
own. -/
def mixedRaw : Json := .object [
  ("type", .array [.string "array", .string "object", .string "null"]),
  ("items", .object [("anyOf", .array [.object [("type", .string "string")]]),
    ("type", .array [.string "string", .string "array"]), ("items", .object [])]),
  ("additionalProperties", .bool true)]

/-- Each type is named once in both lists. -/
theorem count_le_mixedRaw : TypesOnce mixedRaw ∧ (ofJson mixedRaw).count ≤ mixedRaw.nodes := by
  have honce : TypesOnce mixedRaw := by decide
  exact ⟨honce, (count_le_of_typesOnce mixedRaw).1 honce⟩

/-- Items under a list of types that names arrays six times. -/
def repeatedRaw (items : Json) : Json := .object [
  ("type", .array [.string "string", .string "array", .string "array", .string "array",
    .string "array", .string "array", .string "array"]),
  ("items", items)]

/-- The items of the items are copied thirty-six times. -/
theorem exists_count_gt : ¬ ∀ v, (ofJson v).count ≤ 4 * v.nodes := by
  intro h
  have hcount := h (repeatedRaw (repeatedRaw (.object [])))
  revert hcount
  decide

end Schema

end ApiTypes
