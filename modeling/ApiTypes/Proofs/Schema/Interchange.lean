/-
# Exchanging a schema inside a schema

Raw schemas that sort into interchangeable ones may be exchanged anywhere inside a larger raw
schema: what sorting reads off the larger one does not change, and what it hands up from inside
may be exchanged in turn.

* `Schema.interchangeable_ofFields`: schema objects in which sorting reads the same, and whose
  nested schemas may be exchanged, may be exchanged.
* `Schema.Replaced fs gs S S'`: the schema object `fs`, somewhere in `S`, is `gs` in `S'`.
* `Schema.Replaced.interchangeable`: replacing a schema object by one that may stand for it.
-/
import ApiTypes.Proofs.Schema.Nested
import ApiTypes.Proofs.Typing.Interchange

namespace ApiTypes.Schema

variable {f : Option String → Option String} {fs gs : List (String × Json)}

/-! ## 1. What sorting reads -/

/-- The keywords that decide the kind of a schema, and what else bears on its type. -/
def decidingKeywords : List String :=
  ["$ref", "type", "enum", "const", "discriminator", "minItems", "maxItems", "nullable",
    "x-nullable", "readOnly", "default"]

/-- The keywords under which further schemas stand. -/
def nestedKeywords : List String :=
  ["allOf", "oneOf", "anyOf", "items", "properties", "additionalProperties"]

/-- The keywords whose words go into comments. -/
def wordKeywords : List String :=
  ["title", "description", "format", "deprecated", "writeOnly", "example", "examples"]

/-- Every keyword that sorting reads. -/
def readKeywords : List String :=
  decidingKeywords ++ nestedKeywords ++ wordKeywords ++ ["required"]

/-- A schema object that is sorted as a combination of others. -/
structure Combines (fs : List (String × Json)) : Prop where
  unreferred : textAt fs "$ref" = none
  unlisted : (hasKey fs "enum" || hasKey fs "const") = false
  combined : (hasKey fs "allOf" || hasKey fs "oneOf" || hasKey fs "anyOf") = true

/-- Whether the type `object` is all that a combination says about itself. -/
def bareObject (fs : List (String × Json)) : Bool :=
  match fs.filter fun (k, _) => !combinationKeys.contains k with
  | [("type", .string t)] => t = "object"
  | _ => false

/-- The traits of what a combination says about itself. -/
def baseTraits (fs : List (String × Json)) : Traits :=
  { readTraits fs with
    title := none, description := none, deprecated := false
    nullable := (declaredTypes fs).contains "null", default := none, sample := none }

theorem baseOf_eq (fs : List (String × Json)) (nested : Nested) : baseOf fs nested =
    if structuralKeys.any (hasKey fs) && !bareObject fs then
      some (uncombined fs nested (declaredTypes fs) (baseTraits fs))
    else none := rfl

/-- Sorting reads the same in two schema objects, words apart. -/
structure ReadAlike (f : Option String → Option String) (fs gs : List (String × Json)) :
    Prop where
  deciding : ∀ key ∈ decidingKeywords, Json.lookup key fs = Json.lookup key gs
  nested : ∀ key ∈ nestedKeywords, hasKey fs key = hasKey gs key
  required : Json.lookup "required" fs = Json.lookup "required" gs
    ∨ hasKey fs "properties" = false
  base : Combines fs → bareObject fs = bareObject gs
  doc : f (Comment.ofTraits (readTraits fs)) = f (Comment.ofTraits (readTraits gs))

/-- The schemas handed up from inside two schema objects may stand for each other. -/
structure Nested.TypedAlike (f : Option String → Option String) (n n' : Nested) : Prop where
  allOf : List.Forall₂ (Schema.TypedAlike f) n.allOf n'.allOf
  oneOf : List.Forall₂ (Schema.TypedAlike f) n.oneOf n'.oneOf
  anyOf : List.Forall₂ (Schema.TypedAlike f) n.anyOf n'.anyOf
  items : Option.Rel (Schema.TypedAlike f) n.items n'.items
  properties : List.Forall₂ (SameProperty f) n.properties n'.properties
  additional : n.additional.TypedAlike f n'.additional

/-! ## 2. The steps of sorting -/

namespace ReadAlike

theorem types (h : ReadAlike f fs gs) : declaredTypes fs = declaredTypes gs := by
  rw [declaredTypes, declaredTypes, h.deciding "type" (by decide)]

theorem hasKey (h : ReadAlike f fs gs) (key : String)
    (hkey : key ∈ decidingKeywords ∨ key ∈ nestedKeywords) : hasKey fs key = hasKey gs key := by
  rcases hkey with hkey | hkey
  · rw [Schema.hasKey, Schema.hasKey, h.deciding key hkey]
  · exact h.nested key hkey

theorem textAt (h : ReadAlike f fs gs) (key : String) (hkey : key ∈ decidingKeywords) :
    textAt fs key = textAt gs key := by
  rw [Schema.textAt, Schema.textAt, h.deciding key hkey]

theorem flagAt (h : ReadAlike f fs gs) (key : String) (hkey : key ∈ decidingKeywords) :
    flagAt fs key = flagAt gs key := by
  rw [Schema.flagAt, Schema.flagAt, h.deciding key hkey]

theorem sameNull (h : ReadAlike f fs gs) : (readTraits fs).SameNull (readTraits gs) where
  nullable := by
    simp only [readTraits, h.flagAt "nullable" (by decide),
      h.flagAt "x-nullable" (by decide), h.types]
  default := by simp only [readTraits, h.deciding "default" (by decide)]

theorem readOnly (h : ReadAlike f fs gs) : (readTraits fs).readOnly = (readTraits gs).readOnly :=
  h.flagAt "readOnly" (by decide)

theorem discriminator (h : ReadAlike f fs gs) : discriminator? fs = discriminator? gs := by
  rw [discriminator?, discriminator?, h.deciding "discriminator" (by decide)]

theorem listed (h : ReadAlike f fs gs) : listedValues fs = listedValues gs := by
  rw [listedValues, listedValues, h.deciding "enum" (by decide), h.deciding "const" (by decide)]

theorem requiredNames (h : ReadAlike f fs gs) {n : Nested}
    (hn : Schema.hasKey fs "properties" = false → n.properties = []) :
    textsAt fs "required" = textsAt gs "required" ∨ n.properties = [] :=
  h.required.imp (fun heq => by rw [textsAt, textsAt, heq]) hn

end ReadAlike

section Steps

variable {n n' : Nested} {types : List String} {t t' : Traits}

theorem typedAlike_single (h : ReadAlike f fs gs) (hn : n.TypedAlike f n')
    (hp : hasKey fs "properties" = false → n.properties = []) (ht : t.SameNull t') :
    TypedAlike f (single fs n types t) (single gs n' types t') := by
  unfold single
  simp only [h.hasKey "items" (.inr (by decide)),
    h.hasKey "properties" (.inr (by decide)),
    h.hasKey "additionalProperties" (.inr (by decide)),
    h.deciding "minItems" (by decide), h.deciding "maxItems" (by decide)]
  split
  · exact typedAlike_array _ _ hn.items ht
  · split
    · exact typedAlike_object hn.properties (h.requiredNames hp) hn.additional ht
    · split
      · exact typedAlike_scalar _ ht
      · exact typedAlike_unknown _ _

theorem typedAlike_uncombined (h : ReadAlike f fs gs) (hn : n.TypedAlike f n')
    (hp : hasKey fs "properties" = false → n.properties = []) (ht : t.SameNull t') :
    TypedAlike f (uncombined fs n types t) (uncombined gs n' types t') := by
  unfold uncombined
  simp only
  split
  · refine typedAlike_composed none .nil .nil ?_ .none ht
    rw [List.forall₂_map_left_iff, List.forall₂_map_right_iff, List.forall₂_same]
    exact fun name _ => typedAlike_single h hn hp ⟨rfl, ht.default⟩
  · exact typedAlike_single h hn hp ht

theorem typedAlike_base (h : ReadAlike f fs gs) (hc : Combines fs) (hn : n.TypedAlike f n')
    (hp : hasKey fs "properties" = false → n.properties = []) :
    Option.Rel (TypedAlike f) (baseOf fs n) (baseOf gs n') := by
  have hkeys : structuralKeys.any (hasKey fs) = structuralKeys.any (hasKey gs) := by
    simp only [structuralKeys, List.any_cons, List.any_nil,
      h.hasKey "type" (.inl (by decide)), h.hasKey "items" (.inr (by decide)),
      h.hasKey "properties" (.inr (by decide)),
      h.hasKey "additionalProperties" (.inr (by decide))]
  rw [baseOf_eq, baseOf_eq, hkeys, h.base hc, h.types]
  split
  · exact .some (typedAlike_uncombined h hn hp ⟨by rw [baseTraits, baseTraits, h.types], rfl⟩)
  · exact .none

/-- The traits of a schema of any kind are those that are read. -/
theorem traits_single : (single fs n types t).traits = t := by
  unfold single
  simp only
  split
  · rfl
  · split
    · rfl
    · split <;> rfl

theorem traits_uncombined : (uncombined fs n types t).traits = t := by
  unfold uncombined
  simp only
  split
  · rfl
  · exact traits_single

theorem traits_ofFields : (ofFields fs n).traits = readTraits fs := by
  unfold ofFields
  simp only
  split
  · rfl
  · split
    · rfl
    · split
      · rfl
      · exact traits_uncombined

/-- The kind of a schema object, the reference being read as a text. -/
theorem ofFields_eq (fs : List (String × Json)) (n : Nested) : ofFields fs n =
    match textAt fs "$ref" with
    | some target => .reference target (readTraits fs)
    | none =>
      if hasKey fs "enum" || hasKey fs "const" then .enumerated (listedValues fs) (readTraits fs)
      else if hasKey fs "allOf" || hasKey fs "oneOf" || hasKey fs "anyOf" then
        .composed n.allOf n.oneOf n.anyOf (discriminator? fs) (baseOf fs n) (readTraits fs)
      else uncombined fs n (declaredTypes fs) (readTraits fs) := by
  unfold ofFields textAt
  cases Json.lookup "$ref" fs with
  | none => rfl
  | some v => cases v <;> rfl

theorem typedAlike_ofFields (h : ReadAlike f fs gs) (hn : n.TypedAlike f n')
    (hp : hasKey fs "properties" = false → n.properties = []) :
    TypedAlike f (ofFields fs n) (ofFields gs n') := by
  rw [ofFields_eq, ofFields_eq, ← h.textAt "$ref" (by decide),
    ← h.hasKey "enum" (.inl (by decide)), ← h.hasKey "const" (.inl (by decide)),
    ← h.hasKey "allOf" (.inr (by decide)), ← h.hasKey "oneOf" (.inr (by decide)),
    ← h.hasKey "anyOf" (.inr (by decide)), ← h.discriminator, ← h.listed, ← h.types]
  split
  · exact typedAlike_reference _ _ _
  · rename_i href
    split
    · exact typedAlike_enumerated _ h.sameNull
    · rename_i hlisted
      split
      · rename_i hcombined
        have hc : Combines fs := ⟨href, Bool.not_eq_true _ ▸ hlisted, hcombined⟩
        exact typedAlike_composed _ hn.allOf hn.oneOf hn.anyOf (typedAlike_base h hc hn hp)
          h.sameNull
      · exact typedAlike_uncombined h hn hp h.sameNull

/-- **Schema objects in which sorting reads the same** may be exchanged, if the schemas inside
them may. -/
theorem interchangeable_ofFields (h : ReadAlike f fs gs) (hn : n.TypedAlike f n')
    (hp : hasKey fs "properties" = false → n.properties = []) :
    Interchangeable f (ofFields fs n) (ofFields gs n') where
  toTypedAlike := typedAlike_ofFields h hn hp
  readOnly := by rw [traits_ofFields, traits_ofFields, h.readOnly]
  doc := by rw [traits_ofFields, traits_ofFields, h.doc]

end Steps

/-! ## 3. What is handed up -/

/-- The values of a keyword whose schemas may be exchanged. -/
inductive ValueAlike (f : Option String → Option String) : String → Json → Json → Prop
  | same (key : String) (v : Json) : ValueAlike f key v v
  | members {key : String} {schemas schemas' : List Json} (hkey : key ∈ ["allOf", "oneOf", "anyOf"])
      (h : List.Forall₂ (fun s s' => Interchangeable f (ofJson s) (ofJson s')) schemas schemas') :
      ValueAlike f key (.array schemas) (.array schemas')
  | items {key : String} {s s' : Json} (hkey : key = "items")
      (h : Interchangeable f (ofJson s) (ofJson s')) : ValueAlike f key s s'
  | properties {key : String} {ps ps' : List (String × Json)} (hkey : key = "properties")
      (h : List.Forall₂ (fun p q => p.1 = q.1 ∧ Interchangeable f (ofJson p.2) (ofJson q.2))
        ps ps') : ValueAlike f key (.object ps) (.object ps')
  | additional {key : String} {s s' : List (String × Json)} (hkey : key = "additionalProperties")
      (h : Interchangeable f (ofJson (.object s)) (ofJson (.object s'))) :
      ValueAlike f key (.object s) (.object s')

/-- Interchangeable values stand under the same keywords. -/
def FieldAlike (f : Option String → Option String) (fs gs : List (String × Json))
    (key : String) : Prop :=
  Option.Rel (ValueAlike f key) (Json.lookup key fs) (Json.lookup key gs)

theorem fieldAlike_refl (fs : List (String × Json)) (key : String) : FieldAlike f fs fs key := by
  rw [FieldAlike]
  cases Json.lookup key fs with
  | none => exact .none
  | some v => exact .some (.same _ _)

theorem typedAlike_refl (ss : List Schema) : List.Forall₂ (TypedAlike f) ss ss :=
  List.forall₂_same.mpr fun s _ => (Interchangeable.refl s).toTypedAlike

theorem FieldAlike.listAt {key : String} (hkey : key ∈ ["allOf", "oneOf", "anyOf"])
    (h : FieldAlike f fs gs key) :
    List.Forall₂ (TypedAlike f) (listAt fs key) (listAt gs key) := by
  rw [FieldAlike] at h
  rw [Schema.listAt, Schema.listAt]
  generalize Json.lookup key fs = o, Json.lookup key gs = o' at h
  cases h with
  | none => exact .nil
  | some hv =>
    simp only [Option.map_some, Option.getD_some]
    cases hv with
    | same => exact typedAlike_refl _
    | members _ h =>
      rw [ofItems, ofItems, ofList_eq_map, ofList_eq_map, List.forall₂_map_left_iff,
        List.forall₂_map_right_iff]
      exact h.imp fun _ _ h => h.toTypedAlike
    | items heq | properties heq | additional heq => exact absurd (heq ▸ hkey) (by decide)

theorem FieldAlike.items (h : FieldAlike f fs gs "items") :
    Option.Rel (TypedAlike f) ((Json.lookup "items" fs).map ofJson)
      ((Json.lookup "items" gs).map ofJson) := by
  rw [FieldAlike] at h
  generalize Json.lookup "items" fs = o, Json.lookup "items" gs = o' at h
  cases h with
  | none => exact .none
  | some hv =>
    cases hv with
    | same => exact .some (Interchangeable.refl _).toTypedAlike
    | members hkey | properties hkey | additional hkey => exact absurd hkey (by decide)
    | items _ h => exact .some h.toTypedAlike

theorem FieldAlike.properties (h : FieldAlike f fs gs "properties") :
    List.Forall₂ (SameProperty f) (((Json.lookup "properties" fs).map ofProperties).getD [])
      (((Json.lookup "properties" gs).map ofProperties).getD []) := by
  rw [FieldAlike] at h
  generalize Json.lookup "properties" fs = o, Json.lookup "properties" gs = o' at h
  cases h with
  | none => exact .nil
  | some hv =>
    simp only [Option.map_some, Option.getD_some]
    cases hv with
    | same => exact List.forall₂_same.mpr fun p _ => ⟨rfl, .refl _⟩
    | members hkey | items hkey | additional hkey => exact absurd hkey (by decide)
    | properties _ h =>
      rw [ofProperties, ofProperties, ofPropertyList_eq_map, ofPropertyList_eq_map,
        List.forall₂_map_left_iff, List.forall₂_map_right_iff]
      exact h

theorem FieldAlike.additional (h : FieldAlike f fs gs "additionalProperties") :
    (((Json.lookup "additionalProperties" fs).map additionalOf).getD .unsaid).TypedAlike f
      (((Json.lookup "additionalProperties" gs).map additionalOf).getD .unsaid) := by
  rw [FieldAlike] at h
  generalize Json.lookup "additionalProperties" fs = o,
    Json.lookup "additionalProperties" gs = o' at h
  cases h with
  | none => exact .unsaid
  | some hv =>
    simp only [Option.map_some, Option.getD_some]
    cases hv with
    | same => exact .refl _
    | members hkey | items hkey | properties hkey => exact absurd hkey (by decide)
    | additional _ h => exact .schema h.toTypedAlike

/-- **What is handed up may be exchanged** if the values of the keywords may. -/
theorem typedAlike_nestedIn (h : ∀ key ∈ nestedKeywords, FieldAlike f fs gs key) :
    (nestedIn fs).TypedAlike f (nestedIn gs) := by
  rw [nestedIn_eq, nestedIn_eq]
  exact ⟨(h _ (by decide)).listAt (by decide), (h _ (by decide)).listAt (by decide),
    (h _ (by decide)).listAt (by decide), (h _ (by decide)).items, (h _ (by decide)).properties,
    (h _ (by decide)).additional⟩

/-- Without the keyword no properties are handed up. -/
theorem properties_eq_nil (h : hasKey fs "properties" = false) :
    (nestedIn fs).properties = [] := by
  rw [nestedIn_eq]
  rw [hasKey, Option.isSome_eq_false_iff, Option.isNone_iff_eq_none] at h
  simp only [h, Option.map_none, Option.getD_none]

/-- **A schema object may be exchanged for one in which sorting reads the same**, words and the
schemas inside apart. -/
theorem interchangeable_object (h : ReadAlike f fs gs)
    (hn : ∀ key ∈ nestedKeywords, FieldAlike f fs gs key) :
    Interchangeable f (ofJson (.object fs)) (ofJson (.object gs)) := by
  rw [ofJson, ofJson]
  exact interchangeable_ofFields h (typedAlike_nestedIn hn) properties_eq_nil

/-! ## 4. Replacing a schema inside a schema -/

/-- The larger schema `S` has the schema object `fs` somewhere inside, or is it; `S'` has `gs`
in its place and is the same elsewhere.  Under a keyword that is not read anything may have
changed. -/
inductive Replaced (fs gs : List (String × Json)) : Json → Json → Prop
  | here : Replaced fs gs (.object fs) (.object gs)
  | member {key : String} {pre post : List (String × Json)} {before after : List Json}
      {s s' : Json} (hkey : key ∈ ["allOf", "oneOf", "anyOf"]) (h : Replaced fs gs s s') :
      Replaced fs gs (.object (pre ++ (key, .array (before ++ s :: after)) :: post))
        (.object (pre ++ (key, .array (before ++ s' :: after)) :: post))
  | items {pre post : List (String × Json)} {s s' : Json} (h : Replaced fs gs s s') :
      Replaced fs gs (.object (pre ++ ("items", s) :: post))
        (.object (pre ++ ("items", s') :: post))
  | property {name : String} {pre post before after : List (String × Json)} {s s' : Json}
      (h : Replaced fs gs s s') :
      Replaced fs gs
        (.object (pre ++ ("properties", .object (before ++ (name, s) :: after)) :: post))
        (.object (pre ++ ("properties", .object (before ++ (name, s') :: after)) :: post))
  | additional {pre post : List (String × Json)} {s s' : Json} (h : Replaced fs gs s s') :
      Replaced fs gs (.object (pre ++ ("additionalProperties", s) :: post))
        (.object (pre ++ ("additionalProperties", s') :: post))
  | unread {key : String} {pre post : List (String × Json)} {v v' : Json}
      (hkey : key ∉ readKeywords) :
      Replaced fs gs (.object (pre ++ (key, v) :: post)) (.object (pre ++ (key, v') :: post))

section OneField

variable {key : String} {v v' : Json} {pre post : List (String × Json)}

theorem lookup_append (key : String) (fs gs : List (String × Json)) :
    Json.lookup key (fs ++ gs) = (Json.lookup key fs).or (Json.lookup key gs) := by
  induction fs with
  | nil => rfl
  | cons kv rest ih =>
    obtain ⟨k, w⟩ := kv
    rw [List.cons_append, Json.lookup, Json.lookup, ih]
    split <;> rfl

/-- Other keys are looked up as before. -/
theorem lookup_other {other : String} (h : key ≠ other) :
    Json.lookup other (pre ++ (key, v) :: post)
      = Json.lookup other (pre ++ (key, v') :: post) := by
  simp only [lookup_append, Json.lookup, if_neg h]

theorem hasKey_changed (other : String) :
    hasKey (pre ++ (key, v) :: post) other = hasKey (pre ++ (key, v') :: post) other := by
  rw [hasKey, hasKey, lookup_append, lookup_append, Json.lookup, Json.lookup]
  split
  · cases Json.lookup other pre <;> rfl
  · rfl

/-- The key itself has the new value for the old one, unless it stands before as well. -/
theorem fieldAlike_changed (h : ValueAlike f key v v') (other : String) :
    FieldAlike f (pre ++ (key, v) :: post) (pre ++ (key, v') :: post) other := by
  rw [FieldAlike, lookup_append, lookup_append, Json.lookup, Json.lookup]
  cases Json.lookup other pre with
  | some w => exact .some (.same _ _)
  | none =>
    simp only [Option.none_or]
    split
    · rename_i heq
      exact .some (heq ▸ h)
    · cases Json.lookup other post with
      | none => exact .none
      | some w => exact .some (.same _ _)

/-- A schema object that says anything but its type about itself is not bare. -/
theorem bareObject_eq_false (hv : (key, v) ∈ fs) (hkey : key ∉ combinationKeys)
    (hne : key ≠ "type") : bareObject fs = false := by
  have hmem : (key, v) ∈ fs.filter fun (k, _) => !combinationKeys.contains k :=
    List.mem_filter.mpr ⟨hv, by simpa using hkey⟩
  unfold bareObject
  split
  · rename_i heq
    rw [heq, List.mem_singleton, Prod.mk.injEq] at hmem
    exact absurd hmem.1 hne
  · rfl

theorem bareObject_changed (hne : key ≠ "type") :
    bareObject (pre ++ (key, v) :: post) = bareObject (pre ++ (key, v') :: post) := by
  by_cases hkey : key ∈ combinationKeys
  · have hdrop : (!combinationKeys.contains key) = false := by simpa using hkey
    unfold bareObject
    simp only [List.filter_append, List.filter_cons, hdrop]
    rfl
  · rw [bareObject_eq_false (v := v) (by simp) hkey hne,
      bareObject_eq_false (v := v') (by simp) hkey hne]

/-- Traits are read off the same values. -/
theorem readTraits_changed (h : key ∉ decidingKeywords) (h' : key ∉ wordKeywords) :
    readTraits (pre ++ (key, v) :: post) = readTraits (pre ++ (key, v') :: post) := by
  have hdeciding : ∀ other ∈ decidingKeywords, Json.lookup other (pre ++ (key, v) :: post)
      = Json.lookup other (pre ++ (key, v') :: post) :=
    fun other ho => lookup_other fun heq => h (heq ▸ ho)
  have hwords : ∀ other ∈ wordKeywords, Json.lookup other (pre ++ (key, v) :: post)
      = Json.lookup other (pre ++ (key, v') :: post) :=
    fun other ho => lookup_other fun heq => h' (heq ▸ ho)
  simp only [readTraits, textAt, flagAt, declaredTypes, hdeciding "type" (by decide),
    hdeciding "nullable" (by decide), hdeciding "x-nullable" (by decide),
    hdeciding "readOnly" (by decide), hdeciding "default" (by decide),
    hwords "title" (by decide), hwords "description" (by decide), hwords "format" (by decide),
    hwords "deprecated" (by decide), hwords "writeOnly" (by decide),
    hwords "example" (by decide), hwords "examples" (by decide)]

theorem readAlike_changed (h : key ∉ decidingKeywords) (h' : key ∉ wordKeywords)
    (hr : key ≠ "required") :
    ReadAlike f (pre ++ (key, v) :: post) (pre ++ (key, v') :: post) where
  deciding other ho := lookup_other fun heq => h (heq ▸ ho)
  nested other _ := hasKey_changed other
  required := .inl (lookup_other hr)
  base _ := bareObject_changed fun heq => h (heq ▸ by decide)
  doc := by rw [readTraits_changed h h']

theorem unread_of_nested :
    ∀ key ∈ nestedKeywords, key ∉ decidingKeywords ∧ key ∉ wordKeywords ∧ key ≠ "required" := by
  decide

/-- A schema object may be exchanged if the values under one of its keywords may. -/
theorem interchangeable_changed (hkey : key ∈ nestedKeywords) (hv : ValueAlike f key v v') :
    Interchangeable f (ofJson (.object (pre ++ (key, v) :: post)))
      (ofJson (.object (pre ++ (key, v') :: post))) := by
  obtain ⟨hd, hw, hr⟩ := unread_of_nested key hkey
  exact interchangeable_object (readAlike_changed hd hw hr) fun other _ =>
    fieldAlike_changed hv other

end OneField

/-- A schema in which an object is replaced is an object itself. -/
theorem Replaced.exists_object {S S' : Json} (h : Replaced fs gs S S') :
    ∃ hs hs', S = .object hs ∧ S' = .object hs' := by
  cases h <;> exact ⟨_, _, rfl, rfl⟩

/-- **A schema object may be replaced, anywhere in a schema**, by one that may stand for it. -/
theorem Replaced.interchangeable {S S' : Json} (h : Replaced fs gs S S')
    (here : Interchangeable f (ofJson (.object fs)) (ofJson (.object gs))) :
    Interchangeable f (ofJson S) (ofJson S') := by
  induction h with
  | here => exact here
  | member hkey _ ih =>
    refine interchangeable_changed ?_ (.members hkey (List.rel_append ?_ (.cons ih ?_)))
    · exact List.mem_append_left ["items", "properties", "additionalProperties"] hkey
    · exact List.forall₂_same.mpr fun _ _ => .refl _
    · exact List.forall₂_same.mpr fun _ _ => .refl _
  | items _ ih => exact interchangeable_changed (by decide) (.items rfl ih)
  | property _ ih =>
    refine interchangeable_changed (by decide)
      (.properties rfl (List.rel_append ?_ (.cons ⟨rfl, ih⟩ ?_)))
    · exact List.forall₂_same.mpr fun _ _ => ⟨rfl, .refl _⟩
    · exact List.forall₂_same.mpr fun _ _ => ⟨rfl, .refl _⟩
  | additional h ih =>
    obtain ⟨_, _, rfl, rfl⟩ := h.exists_object
    exact interchangeable_changed (by decide) (.additional rfl ih)
  | @unread key _ _ _ _ hkey =>
    rw [readKeywords, List.mem_append, List.mem_append, List.mem_append, not_or, not_or, not_or]
      at hkey
    refine interchangeable_object (readAlike_changed hkey.1.1.1 hkey.1.2 ?_) fun other ho => ?_
    · exact fun heq => hkey.2 (List.mem_singleton.mpr heq)
    · have hne : key ≠ other := fun heq => hkey.1.1.2 (heq ▸ ho)
      rw [FieldAlike, lookup_other hne]
      exact fieldAlike_refl _ other

end ApiTypes.Schema
