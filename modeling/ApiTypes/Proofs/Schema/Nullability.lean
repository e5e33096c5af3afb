/-
# Spellings of null

That a value may be null as well is said by a flag, by an extension that is a flag, or by `null`
in the list of types.  Where a schema stands for itself the three are sorted alike.  Beside a
combination they are not: the flags go with the combination and are kept from its base, while
`null` stays in the list of types that the base is sorted by.

* `Schema.SpellsNull t fs`: the schema object `fs` says `t` or null, in one of three spellings.
* `Schema.interchangeable_of_spellsNull`: spellings of one schema that is no combination, or
  whose type has no values of its own, may stand for each other.
* `Schema.schema_eq_of_spellsNull`: so the schemas around them have one type.
* `Schema.ne_of_spellsNull_combined`: a combination with a type, spelled in two ways.
-/
import ApiTypes.Proofs.Schema.Interchange
import Mathlib

namespace ApiTypes.Schema

/-! ## 1. The spellings -/

/-- A schema object of the type `t` that allows null. -/
inductive SpellsNull (t : String) (fs : List (String × Json)) : Prop
  /-- `type: t` and `nullable: true` -/
  | flag (type : Json.lookup "type" fs = some (.string t))
      (null : Json.lookup "nullable" fs = some (.bool true))
  /-- `type: t` and `x-nullable: true` -/
  | extension (type : Json.lookup "type" fs = some (.string t))
      (null : Json.lookup "x-nullable" fs = some (.bool true))
  /-- `type: [t, "null"]` and no flag -/
  | listed (type : Json.lookup "type" fs = some (.array [.string t, .string "null"]))
      (flag : Json.lookup "nullable" fs = none) (extension : Json.lookup "x-nullable" fs = none)

/-- The keywords in which the spellings differ. -/
def nullKeywords : List String := ["type", "nullable", "x-nullable"]

/-- The types of values other than null. -/
def valueTypes : List String := ["array", "object", "string", "integer", "number", "boolean"]

variable {t : String} {fs gs : List (String × Json)}

namespace SpellsNull

theorem types (h : SpellsNull t fs) :
    declaredTypes fs = [t] ∨ declaredTypes fs = [t, "null"] := by
  cases h with
  | flag type _ | extension type _ => exact .inl (by rw [declaredTypes, type])
  | listed type _ _ => exact .inr (by rw [declaredTypes, type]; rfl)

theorem nullable (h : SpellsNull t fs) : (readTraits fs).nullable = true := by
  cases h with
  | flag _ null => simp [readTraits, flagAt, null, Json.asBool?]
  | extension _ null => simp [readTraits, flagAt, null, Json.asBool?]
  | listed type _ _ =>
    have htypes : declaredTypes fs = [t, "null"] := by rw [declaredTypes, type]; rfl
    simp [readTraits, htypes]

theorem hasType (h : SpellsNull t fs) : hasKey fs "type" = true := by
  cases h with
  | flag type _ | extension type _ | listed type _ _ => rw [hasKey, type]; rfl

/-- The types other than null are the same in all spellings. -/
theorem names (h : SpellsNull t fs) :
    (declaredTypes fs).filter (· ≠ "null") = [t].filter (· ≠ "null") := by
  rcases h.types with heq | heq
  · rw [heq]
  · have hsplit : [t, "null"] = [t] ++ ["null"] := rfl
    rw [heq, hsplit, List.filter_append]
    simp

theorem scalarKinds (h : SpellsNull t fs) : scalarKinds? (declaredTypes fs) = scalarKinds? [t] := by
  have hne : declaredTypes fs ≠ [] := by rcases h.types with heq | heq <;> simp [heq]
  rw [scalarKinds?, scalarKinds?, h.names, if_neg hne, if_neg (List.cons_ne_nil t [])]

end SpellsNull

/-! ## 2. Sorting the spellings -/

section Steps

variable {n : Nested}

/-- Schema objects that differ in the spelling of null only. -/
structure SameButNull (t : String) (fs gs : List (String × Json)) : Prop where
  left : SpellsNull t fs
  right : SpellsNull t gs
  same : ∀ key, key ∉ nullKeywords → Json.lookup key fs = Json.lookup key gs

namespace SameButNull

theorem hasKey (h : SameButNull t fs gs) (key : String) (hkey : key ∉ nullKeywords) :
    hasKey fs key = hasKey gs key := by
  rw [Schema.hasKey, Schema.hasKey, h.same key hkey]

theorem traits (h : SameButNull t fs gs) : readTraits fs = readTraits gs := by
  have hnull : (readTraits fs).nullable = (readTraits gs).nullable :=
    h.left.nullable.trans h.right.nullable.symm
  simp only [readTraits, textAt, flagAt, h.same "title" (by decide),
    h.same "description" (by decide), h.same "format" (by decide),
    h.same "deprecated" (by decide), h.same "readOnly" (by decide),
    h.same "writeOnly" (by decide), h.same "default" (by decide),
    h.same "example" (by decide), h.same "examples" (by decide), Traits.mk.injEq] at hnull ⊢
  simpa using hnull

theorem nested (h : SameButNull t fs gs) : nestedIn fs = nestedIn gs := by
  simp only [nestedIn_eq, listAt, h.same "allOf" (by decide), h.same "oneOf" (by decide),
    h.same "anyOf" (by decide), h.same "items" (by decide), h.same "properties" (by decide),
    h.same "additionalProperties" (by decide)]

theorem single (h : SameButNull t fs gs) (tr : Traits) :
    single fs n (declaredTypes fs) tr = single gs n (declaredTypes gs) tr := by
  simp only [Schema.single, h.left.names, h.right.names, h.left.scalarKinds, h.right.scalarKinds,
    textsAt, h.hasKey "items" (by decide), h.hasKey "properties" (by decide),
    h.hasKey "additionalProperties" (by decide), h.same "minItems" (by decide),
    h.same "maxItems" (by decide), h.same "required" (by decide)]

/-- With one type beside null there are no alternatives. -/
theorem uncombined_eq (h : SpellsNull t fs) (tr : Traits) :
    uncombined fs n (declaredTypes fs) tr = Schema.single fs n (declaredTypes fs) tr := by
  have hlen : ¬ ([t].filter (· ≠ "null")).length > 1 :=
    Nat.not_lt.mpr (List.length_filter_le _ [t])
  rw [uncombined]
  simp only [h.names, hlen, decide_false, Bool.false_and, Bool.false_eq_true, if_false]

theorem uncombined (h : SameButNull t fs gs) (tr : Traits) :
    uncombined fs n (declaredTypes fs) tr = uncombined gs n (declaredTypes gs) tr := by
  rw [uncombined_eq h.left, uncombined_eq h.right, h.single]

end SameButNull

/-- What a filter on keys keeps is looked up as before. -/
theorem lookup_filter {key : String} (keep : String → Bool) (hkey : keep key = true)
    (fs : List (String × Json)) :
    Json.lookup key (fs.filter fun (k, _) => keep k) = Json.lookup key fs := by
  induction fs with
  | nil => rfl
  | cons kv rest ih =>
    obtain ⟨k, v⟩ := kv
    simp only [List.filter_cons, Json.lookup]
    by_cases hk : k = key
    · rw [if_pos hk, hk, if_pos hkey, Json.lookup, if_pos rfl]
    · rw [if_neg hk]
      split
      · rw [Json.lookup, if_neg hk, ih]
      · exact ih

/-- A schema object is bare only if its type is the one name `object`. -/
theorem lookup_of_bareObject (h : bareObject fs = true) :
    Json.lookup "type" fs = some (.string "object") := by
  unfold bareObject at h
  split at h
  · rename_i name heq
    have hlookup : Json.lookup "type" [("type", .string name)] = some (.string name) := rfl
    rw [← lookup_filter (fun k => !combinationKeys.contains k) (by decide) fs, heq,
      hlookup, of_decide_eq_true h]
  · cases h

theorem SpellsNull.bareObject_eq (h : SpellsNull t fs) (ht : t ∉ valueTypes) :
    bareObject fs = false := by
  rw [Bool.eq_false_iff]
  intro hbare
  have htype := lookup_of_bareObject hbare
  cases h with
  | flag type _ | extension type _ =>
    rw [type, Option.some.injEq, Json.string.injEq] at htype
    exact ht (htype ▸ by decide)
  | listed type _ _ =>
    rw [type] at htype
    cases htype

/-- A type that names no values is not known. -/
theorem single_eq_unknown (h : SpellsNull t fs) (ht : t ∉ valueTypes) (hnull : t ≠ "null")
    (tr : Traits) : single fs n (declaredTypes fs) tr = .unknown tr := by
  simp only [valueTypes, List.mem_cons, List.not_mem_nil, or_false, not_or] at ht
  have hnames : [t].filter (· ≠ "null") = [t] := by simp [hnull]
  have hkind : ScalarKind.ofName? t = none := by simp [ScalarKind.ofName?, ht, hnull]
  have hkinds : scalarKinds? [t] = none := by
    rw [scalarKinds?, hnames]
    simp [List.mapM_cons, hkind]
  simp only [single, h.names, hnames, h.scalarKinds, hkinds]
  simp [ht]

/-- **What a combination of no known type says about itself** does not depend on the spelling. -/
theorem typedAlike_base_of_spellsNull (h : SameButNull t fs gs) (ht : t ∉ valueTypes) :
    Option.Rel (TypedAlike id) (baseOf fs n) (baseOf gs n) := by
  have hkeys : ∀ {fs}, SpellsNull t fs → structuralKeys.any (hasKey fs) = true := by
    intro fs h
    exact List.any_eq_true.mpr ⟨"type", by decide, h.hasType⟩
  rw [baseOf_eq, baseOf_eq, hkeys h.left, hkeys h.right, h.left.bareObject_eq ht,
    h.right.bareObject_eq ht]
  refine .some ?_
  by_cases hnull : t = "null"
  · have hmem : ∀ {fs}, SpellsNull t fs → (declaredTypes fs).contains "null" = true := by
      intro fs h
      rcases h.types with heq | heq <;> simp [heq, hnull]
    have htraits : baseTraits fs = baseTraits gs := by
      rw [baseTraits, baseTraits, h.traits, hmem h.left, hmem h.right]
    rw [htraits, h.uncombined]
    exact (Interchangeable.refl _).toTypedAlike
  · rw [SameButNull.uncombined_eq h.left, SameButNull.uncombined_eq h.right,
      single_eq_unknown h.left ht hnull, single_eq_unknown h.right ht hnull]
    exact typedAlike_unknown _ _

end Steps

/-! ## 3. Whole schemas -/

/-- **The spelling of null does not matter** to a schema that is no combination, or whose type
has no values of its own: the spellings may stand for each other. -/
theorem interchangeable_of_spellsNull (h : SameButNull t fs gs)
    (hc : Combines fs → t ∉ valueTypes) :
    Interchangeable id (ofJson (.object fs)) (ofJson (.object gs)) := by
  rw [ofJson, ofJson]
  refine ⟨?_, by rw [traits_ofFields, traits_ofFields, h.traits],
    by rw [traits_ofFields, traits_ofFields, h.traits]⟩
  have href : textAt fs "$ref" = textAt gs "$ref" := by
    rw [textAt, textAt, h.same "$ref" (by decide)]
  have hvalues : listedValues fs = listedValues gs := by
    rw [listedValues, listedValues, h.same "enum" (by decide), h.same "const" (by decide)]
  have htag : discriminator? fs = discriminator? gs := by
    rw [discriminator?, discriminator?, h.same "discriminator" (by decide)]
  rw [ofFields_eq, ofFields_eq, ← href, ← h.hasKey "enum" (by decide),
    ← h.hasKey "const" (by decide), ← h.hasKey "allOf" (by decide),
    ← h.hasKey "oneOf" (by decide), ← h.hasKey "anyOf" (by decide), ← hvalues,
    ← htag, ← h.traits, ← h.nested, ← h.uncombined]
  split
  · exact typedAlike_reference _ _ _
  · rename_i hunreferred
    split
    · exact (Interchangeable.refl _).toTypedAlike
    · rename_i hunlisted
      split
      · rename_i hcombined
        have ht := hc ⟨hunreferred, Bool.not_eq_true _ ▸ hunlisted, hcombined⟩
        exact typedAlike_composed _ (typedAlike_refl _) (typedAlike_refl _) (typedAlike_refl _)
          (typedAlike_base_of_spellsNull h ht) ⟨rfl, rfl⟩
      · exact (Interchangeable.refl _).toTypedAlike

/-- **Spellings of null give one type.**  A schema object is replaced, anywhere in a schema, by
another spelling of it; if it is no combination of a type with values, the schemas are typed
alike: to equal expressions with the same references, or with the same fault. -/
theorem schema_eq_of_spellsNull (hl : SpellsNull t fs) (hr : SpellsNull t gs)
    (same : ∀ key, key ∉ nullKeywords → Json.lookup key fs = Json.lookup key gs)
    (hc : Combines fs → t ∉ valueTypes) {S S' : Json} (h : Replaced fs gs S S')
    (env : Environment) (depth : Nat) (p : Pointer) :
    Typing.schema env depth p (ofJson S) = Typing.schema env depth p (ofJson S') := by
  have halike := h.interchangeable (interchangeable_of_spellsNull ⟨hl, hr, same⟩ hc)
  refine (Typing.Parallel.within fun depth => (halike.node env depth p).mono ?_).eq
  intro e e' he
  rwa [TypeExpr.AlikeBy, TypeExpr.mapDoc_id, TypeExpr.mapDoc_id] at he

/-- A combination beside a type, null being allowed by a flag. -/
def flaggedUnion (t : String) : List (String × Json) :=
  [("oneOf", .array [.object [("type", .string "string")]]), ("type", .string t),
    ("nullable", .bool true)]

/-- The same with null in the list of types. -/
def listedUnion (t : String) : List (String × Json) :=
  [("oneOf", .array [.object [("type", .string "string")]]),
    ("type", .array [.string t, .string "null"])]

theorem same_listedUnion (t : String) : ∀ key, key ∉ nullKeywords →
    Json.lookup key (flaggedUnion t) = Json.lookup key (listedUnion t) := by
  intro key hkey
  simp only [nullKeywords, List.mem_cons, List.not_mem_nil, or_false, not_or] at hkey
  have hne : ¬ "type" = key ∧ ¬ "nullable" = key := ⟨Ne.symm hkey.1, Ne.symm hkey.2.1⟩
  simp [flaggedUnion, listedUnion, Json.lookup, hne]

/-- A schema of objects with one property. -/
def owning (s : Json) : Json :=
  .object [("type", .string "object"), ("properties", .object [("upload", s)])]

/-- A combination of an unknown type, as a property and in two spellings. -/
theorem schema_eq_listedUnion : SpellsNull "file" (flaggedUnion "file") ∧
    SpellsNull "file" (listedUnion "file") ∧ Combines (flaggedUnion "file") ∧
    Typing.schema ⟨{}, ⟨.null, none⟩⟩ 0 .root (ofJson (owning (.object (flaggedUnion "file"))))
      = Typing.schema ⟨{}, ⟨.null, none⟩⟩ 0 .root
          (ofJson (owning (.object (listedUnion "file")))) :=
  ⟨.flag rfl rfl, .listed rfl rfl rfl, ⟨by decide, by decide, by decide⟩,
    schema_eq_of_spellsNull (.flag rfl rfl) (.listed rfl rfl rfl) (same_listedUnion "file")
      (fun _ => by decide)
      (@Replaced.property _ _ "upload" [("type", .string "object")] [] [] [] _ _ .here) _ _ _⟩

/-- Beside a combination the spelling matters: null in the list of types stays in what the
combination says about itself. -/
theorem ne_of_spellsNull_combined : SpellsNull "object" (flaggedUnion "object") ∧
    SpellsNull "object" (listedUnion "object") ∧
    (∀ key, key ∉ nullKeywords →
      Json.lookup key (flaggedUnion "object") = Json.lookup key (listedUnion "object")) ∧
    (∃ e e', (Typing.schema ⟨{}, ⟨.null, none⟩⟩ 0 .root
        (ofJson (.object (flaggedUnion "object")))).run = (.ok e, []) ∧
      (Typing.schema ⟨{}, ⟨.null, none⟩⟩ 0 .root
        (ofJson (.object (listedUnion "object")))).run = (.ok e', []) ∧
      e.sameShape e' = false) :=
  ⟨.flag rfl rfl, .listed rfl rfl rfl, same_listedUnion "object",
    .union [.primitive .string, .null],
    .union [.intersection [.primitive .string, .union [.record ⟨[], none, false⟩, .null]], .null],
    by cbv, by cbv, by cbv⟩

end ApiTypes.Schema
