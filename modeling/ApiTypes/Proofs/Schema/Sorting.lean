/-
# Sorting loses no value

A value that satisfies a raw schema is accepted by the schema that sorting makes of it.  The two
sides decide in different orders: satisfaction asks every keyword, sorting lets the first
keyword of its precedence decide and drops the others, splits lists of types into alternatives,
and keeps beside a combination only what is left of its own keywords.

Two readings of a raw schema are not shared by all who write them, and `Plain` excludes them: a
discriminator asks for tags, and keywords for lists or objects beside no type are read as a type.

* `Schema.accepts_single`, `Schema.accepts_uncombined`, `Schema.accepts_base` follow the steps of
  sorting; `Schema.accepts_ofJson` is the statement for a whole schema.
-/
import ApiTypes.Proofs.Schema.Meaning
import ApiTypes.Proofs.Schema.Nested

namespace ApiTypes.Schema

/-! ## 1. Plain schemas -/

/-- The keywords of one schema object say no more than its types let them. -/
structure PlainHere (fs : List (String × Json)) : Prop where
  untagged : Json.lookup "discriminator" fs = none
  listed : ∀ w, Json.lookup "enum" fs = some w → ∃ values, w = .array values
  typed : hasKey fs "items" = true ∨ hasKey fs "properties" = true
    ∨ hasKey fs "additionalProperties" = true → declaredTypes fs ≠ []

/-- All schema objects in a raw schema are plain. -/
def Plain (S : Json) : Prop :=
  ∀ fs, Relation.ReflTransGen Part (.object fs) S → PlainHere fs

theorem Plain.here {fs : List (String × Json)} (h : Plain (.object fs)) : PlainHere fs :=
  h fs .refl

theorem Plain.part {s S : Json} (h : Plain S) (hs : Part s S) : Plain s :=
  fun fs hfs => h fs (hfs.tail hs)

/-- A schema object is plain if it and the schemas directly inside it are. -/
theorem Plain.object {fs : List (String × Json)} (here : PlainHere fs)
    (inside : ∀ s ∈ parts fs, Plain s) : Plain (.object fs) := by
  intro gs hgs
  rcases hgs.cases_tail with h | ⟨s, hs, hpart⟩
  · cases h
    exact here
  · exact inside s hpart.mem_parts gs hs

/-! ## 2. Names of types -/

/-- A kind that a name names has that name. -/
theorem name_of_ofName? {t : String} {k : ScalarKind} (h : ScalarKind.ofName? t = some k) :
    k.name = t := by
  unfold ScalarKind.ofName? at h
  split_ifs at h with h1 h2 h3 h4 h5 <;> cases h <;> simp_all [ScalarKind.name]

/-- The names other than null. -/
theorem mem_filter_ne_null {t : String} {types : List String} (h : t ∈ types) (hn : t ≠ "null") :
    t ∈ types.filter (· ≠ "null") := by
  simp [h, hn]

/-- What stands for a name in a list of kinds that names stand for. -/
theorem exists_of_mapM {α β : Type} {f : α → Option β} :
    ∀ {as : List α} {bs : List β}, as.mapM f = some bs → ∀ {a : α}, a ∈ as →
      ∃ b ∈ bs, f a = some b
  | [], _, _, _, ha => absurd ha (by simp)
  | x :: xs, bs, h, a, ha => by
    rw [List.mapM_cons] at h
    simp only [Option.bind_eq_bind, Option.bind_eq_some_iff, Option.pure_def,
      Option.some.injEq] at h
    obtain ⟨b, hb, rest, hrest, rfl⟩ := h
    rcases List.mem_cons.mp ha with rfl | ha
    · exact ⟨b, List.mem_cons_self, hb⟩
    · obtain ⟨b', hb', hf⟩ := exists_of_mapM hrest ha
      exact ⟨b', List.mem_cons_of_mem _ hb', hf⟩

/-! ## 3. Lists and objects -/

section Steps

variable {named : String → Json → Prop} {fs : List (String × Json)} {v : Json}

/-- The schemas directly inside lose no value. -/
abbrev PartsKept (named : String → Json → Prop) (fs : List (String × Json)) : Prop :=
  ∀ s, Part s (.object fs) → ∀ w, Satisfies named s w → Accepts named (ofJson s) w

theorem accepts_array (own : MeetsOwn fs v) (inner : Meets named (declaredNames fs) fs v)
    (kept : PartsKept named fs) (hv : v.HasType "array") (t : Traits) :
    Accepts named (.array (nestedIn fs).items ((Json.lookup "minItems" fs).bind Json.asNat?)
      ((Json.lookup "maxItems" fs).bind Json.asNat?) t) v := by
  obtain ⟨ws, rfl⟩ := hv.exists_array rfl
  refine Or.inr ⟨ws, rfl, fun n hn => own.least ws n rfl hn, fun n hn => own.most ws n rfl hn, ?_⟩
  intro w hw
  rw [nestedIn_eq]
  cases hl : Json.lookup "items" fs with
  | none => trivial
  | some s => exact kept s (.items hl) w (inner.items hl rfl w hw)

/-- A field that satisfies the raw schema of additional properties may stand beside the
declared ones. -/
theorem acceptsAdditional_of_satisfies {s w : Json} (h : Satisfies named s w)
    (kept : Satisfies named s w → Accepts named (ofJson s) w) :
    AcceptsAdditional named (additionalOf s) w := by
  cases s with
  | bool b => exact h
  | null | number _ | string _ | array _ | object _ => exact kept h

/-- Sorting keeps the names of the properties. -/
theorem names_of_properties (fs : List (String × Json)) :
    (((Json.lookup "properties" fs).map ofProperties).getD []).map Prod.fst
      = declaredNames fs := by
  rw [declaredNames]
  cases Json.lookup "properties" fs with
  | none => rfl
  | some w =>
    cases w with
    | object ps => simp [ofProperties, ofPropertyList_eq_map, Json.asObject?]
    | null | bool _ | number _ | string _ | array _ => rfl

theorem accepts_object (own : MeetsOwn fs v) (inner : Meets named (declaredNames fs) fs v)
    (kept : PartsKept named fs) (hv : v.HasType "object") (t : Traits) :
    Accepts named (.object (nestedIn fs).properties (textsAt fs "required")
      (nestedIn fs).additional t) v := by
  obtain ⟨fields, rfl⟩ := hv.exists_object rfl
  rw [nestedIn_eq]
  refine Or.inr ⟨fields, rfl, own.required fields rfl, ?_, ?_⟩
  · intro P hP w hw
    cases hl : Json.lookup "properties" fs with
    | none =>
      rw [hl] at hP
      exact absurd hP (by simp [propertyAcceptances])
    | some value =>
      rw [hl] at hP
      cases value with
      | object ps =>
        simp only [Option.map_some, Option.getD_some, ofProperties, ofPropertyList_eq_map,
          propertyAcceptances_eq_map, List.map_map, List.mem_map] at hP
        obtain ⟨⟨name, s⟩, hs, rfl⟩ := hP
        exact kept s (.property hl hs) w (inner.property hl rfl hs hw)
      | null | bool _ | number _ | string _ | array _ =>
        exact absurd hP (by simp [ofProperties, propertyAcceptances])
  · intro field hf hd
    rw [names_of_properties] at hd
    cases hl : Json.lookup "additionalProperties" fs with
    | none => trivial
    | some s =>
      exact acceptsAdditional_of_satisfies (inner.additional hl rfl hf hd)
        (kept s (.additional hl) field.2)

/-! ## 4. Schemas without combination -/

/-- A schema of one type accepts null if its traits do. -/
theorem accepts_single_null {nested : Nested} {types : List String} {t : Traits}
    (h : t.nullable = true) : Accepts named (single fs nested types t) .null := by
  unfold single
  simp only
  split_ifs
  · exact Or.inl ⟨rfl, h⟩
  · exact Or.inl ⟨rfl, h⟩
  · split
    · exact Or.inl ⟨rfl, h⟩
    · trivial

/-- A scalar type is one of the kinds that its list of types stands for. -/
theorem accepts_scalar {types : List String} {name : String} {t : Traits}
    (hmem : name ∈ types) (hv : v.HasType name) (hnull : "null" ∈ types → t.nullable = true) :
    Accepts named (match scalarKinds? types with
      | some kinds => .scalar kinds t
      | none => .unknown t) v := by
  by_cases hn : name = "null"
  · rw [hv.eq_null hn]
    split
    · exact Or.inl ⟨rfl, hnull (hn ▸ hmem)⟩
    · trivial
  · have hname := mem_filter_ne_null hmem hn
    split
    · rename_i kinds hk
      unfold scalarKinds? at hk
      split at hk
      · rename_i hnil
        rw [hnil] at hname
        exact absurd hname (by simp)
      · obtain ⟨k, hk', hof⟩ := exists_of_mapM hk hname
        exact Or.inr ⟨k, hk', name_of_ofName? hof ▸ hv⟩
    · trivial

/-- **A schema of at most one type that is not scalar.**  `types` are the types it is sorted by,
one of which the value has. -/
theorem accepts_single (own : MeetsOwn fs v) (inner : Meets named (declaredNames fs) fs v)
    (kept : PartsKept named fs) {types : List String} {t : Traits}
    (htypes : types ≠ [] → ∃ name ∈ types, v.HasType name)
    (hstructure : types = [] → hasKey fs "items" = false ∧ hasKey fs "properties" = false
      ∧ hasKey fs "additionalProperties" = false)
    (hnull : "null" ∈ types → t.nullable = true)
    (hone : ∀ name ∈ types, name = "array" ∨ name = "object" →
      types.filter (· ≠ "null") = [name]) :
    Accepts named (single fs (nestedIn fs) types t) v := by
  by_cases hnil : types = []
  · obtain ⟨hi, hp, ha⟩ := hstructure hnil
    subst hnil
    simp only [single, List.filter_nil, List.head?_nil, hi, hp, ha]
    trivial
  obtain ⟨name, hmem, hv⟩ := htypes hnil
  by_cases hn : name = "null"
  · rw [hv.eq_null hn]
    exact accepts_single_null (hnull (hn ▸ hmem))
  have hname := mem_filter_ne_null hmem hn
  have hne : types.filter (· ≠ "null") ≠ [] := List.ne_nil_of_mem hname
  -- a list or an object stands alone, so the first name decides and is the name of the value
  have hhead : ∀ t', t' = "array" ∨ t' = "object" →
      (types.filter (· ≠ "null")).head? = some t' → name = t' := by
    intro t' ht' hh
    have hmem' : t' ∈ types.filter (· ≠ "null") := List.mem_of_mem_head? hh
    rw [hone t' ((List.mem_filter.mp hmem').1) ht', List.mem_singleton] at hname
    exact hname
  have harray : name = "array" → (types.filter (· ≠ "null")).head? = some "array" := by
    intro h
    rw [hone name hmem (Or.inl h), h, List.head?_cons]
  have hobject : name = "object" → (types.filter (· ≠ "null")).head? = some "object" := by
    intro h
    rw [hone name hmem (Or.inr h), h, List.head?_cons]
  unfold single
  simp only [hne, decide_false, Bool.false_and, Bool.or_false, decide_eq_true_eq]
  split_ifs with h1 h2
  · exact accepts_array own inner kept (hhead _ (Or.inl rfl) h1 ▸ hv) t
  · exact accepts_object own inner kept (hhead _ (Or.inr rfl) h2 ▸ hv) t
  · exact accepts_scalar hmem hv hnull

/-- The types of a value that meets the keywords of a schema. -/
theorem exists_type (own : MeetsOwn fs v) (h : declaredTypes fs ≠ []) :
    ∃ name ∈ declaredTypes fs, v.HasType name := by
  refine own.type ?_
  rw [hasKey]
  cases hl : Json.lookup "type" fs with
  | none => rw [declaredTypes, hl] at h; exact absurd rfl h
  | some _ => rfl

/-- **A schema without combination.**  Types among which are lists or objects are alternatives,
and the value has the type of one of them. -/
theorem accepts_uncombined (own : MeetsOwn fs v) (inner : Meets named (declaredNames fs) fs v)
    (kept : PartsKept named fs) (plain : PlainHere fs) {t : Traits}
    (hnull : "null" ∈ declaredTypes fs → t.nullable = true) :
    Accepts named (uncombined fs (nestedIn fs) (declaredTypes fs) t) v := by
  have hstructure : declaredTypes fs = [] → hasKey fs "items" = false
      ∧ hasKey fs "properties" = false ∧ hasKey fs "additionalProperties" = false := by
    intro hnil
    have htyped : ¬ _ := fun h => plain.typed h hnil
    simpa [not_or] using htyped
  unfold uncombined
  simp only
  split_ifs with hsplit
  · rw [Bool.and_eq_true, decide_eq_true_eq] at hsplit
    obtain ⟨name, hmem, hv⟩ := exists_type own (by
      intro hnil
      rw [hnil] at hsplit
      exact absurd hsplit.1 (by simp))
    by_cases hn : name = "null"
    · exact Or.inl ⟨hv.eq_null hn, hnull (hn ▸ hmem)⟩
    · refine Or.inr ⟨rfl, by simp [acceptances], Or.inl rfl, Or.inr ?_, trivial⟩
      rw [acceptances_eq_map]
      refine ⟨_, List.mem_map.mpr ⟨_, List.mem_map.mpr
        ⟨name, mem_filter_ne_null hmem hn, rfl⟩, rfl⟩, ?_⟩
      refine accepts_single own inner kept (fun _ => ⟨name, by simp, hv⟩) (by simp) ?_ ?_
      · intro h
        exact absurd (List.mem_singleton.mp h) (Ne.symm hn)
      · intro name' h' _
        rw [List.mem_singleton.mp h']
        simp [hn]
  · refine accepts_single own inner kept (exists_type own) hstructure hnull ?_
    intro name hmem hshape
    have hne : name ≠ "null" := by rintro rfl; exact absurd hshape (by decide)
    have hname := mem_filter_ne_null hmem hne
    have hany : (declaredTypes fs |>.filter (· ≠ "null")).any
        (fun t => t = "array" || t = "object") = true :=
      List.any_eq_true.mpr ⟨name, hname, by simpa using hshape⟩
    rw [hany, Bool.and_true, decide_eq_true_eq] at hsplit
    obtain ⟨x, hx⟩ := List.length_eq_one_iff.mp
      (Nat.le_antisymm (Nat.not_lt.mp hsplit) (List.length_pos_of_mem hname))
    rw [hx] at hname ⊢
    rw [List.mem_singleton.mp hname]

/-- **What a combination says about itself.** -/
theorem accepts_base (own : MeetsOwn fs v) (inner : Meets named (declaredNames fs) fs v)
    (kept : PartsKept named fs) (plain : PlainHere fs) :
    AcceptsOption named (baseOf fs (nestedIn fs)) v := by
  unfold baseOf
  simp only
  split_ifs
  · exact accepts_uncombined own inner kept plain (fun h => List.contains_iff_mem.mpr h)
  · trivial

/-! ## 5. Listed values and combinations -/

/-- A value is kept once it is there. -/
theorem mem_addDistinct {kept : List Json} {w x : Json} (hx : x ∈ kept) :
    x ∈ addDistinct kept w := by
  unfold addDistinct
  split
  · exact hx
  · exact List.mem_append_left _ hx

theorem mem_foldl_addDistinct {x : Json} : ∀ (values : List Json) {kept : List Json}, x ∈ kept →
    x ∈ values.foldl addDistinct kept
  | [], _, hx => hx
  | _ :: rest, _, hx => mem_foldl_addDistinct rest (mem_addDistinct hx)

/-- Of a value that is equal to a listed one, an equal is kept. -/
theorem exists_equal_kept {w : Json} (hv : v.Equal w) :
    ∀ (values : List Json) {kept : List Json}, w ∈ values →
      ∃ x ∈ values.foldl addDistinct kept, v.Equal x
  | u :: rest, kept, hmem => by
    rcases List.mem_cons.mp hmem with rfl | hmem
    · by_cases hany : kept.any (Json.sameValue w) = true
      · obtain ⟨x, hx, hsame⟩ := List.any_eq_true.mp hany
        exact ⟨x, mem_foldl_addDistinct rest (mem_addDistinct hx),
          hv.trans (Json.equal_of_sameValue hsame)⟩
      · refine ⟨w, mem_foldl_addDistinct rest ?_, hv⟩
        rw [addDistinct, if_neg hany]
        exact List.mem_append_right _ (List.mem_singleton_self w)
    · exact exists_equal_kept hv rest hmem

theorem accepts_enumerated (own : MeetsOwn fs v) (plain : PlainHere fs)
    (h : hasKey fs "enum" = true ∨ hasKey fs "const" = true) (t : Traits) :
    Accepts named (.enumerated (listedValues fs) t) v := by
  suffices ∃ w ∈ ((Json.lookup "enum" fs).bind Json.asArray?).getD []
      ++ (Json.lookup "const" fs).toList, v.Equal w by
    obtain ⟨w, hw, hv⟩ := this
    exact Or.inr (exists_equal_kept hv _ hw)
  rcases h with h | h
  · obtain ⟨w, hw⟩ := Option.isSome_iff_exists.mp h
    obtain ⟨values, rfl⟩ := plain.listed w hw
    obtain ⟨x, hx, hv⟩ := own.enum values hw
    exact ⟨x, List.mem_append_left _ (by simpa [hw, Json.asArray?] using hx), hv⟩
  · obtain ⟨w, hw⟩ := Option.isSome_iff_exists.mp h
    exact ⟨w, List.mem_append_right _ (by simp [hw]), own.const w hw⟩

/-- All schemas of a list accept the value, if the keyword asks for all. -/
theorem accepts_all (kept : PartsKept named fs) {key : String}
    (hkey : key ∈ ["allOf", "oneOf", "anyOf"])
    (hall : ∀ schemas, Json.lookup key fs = some (.array schemas) →
      ∀ s ∈ schemas, Satisfies named s v) :
    ∀ P ∈ acceptances named (listAt fs key), P v := by
  by_cases hl : ∃ schemas, Json.lookup key fs = some (.array schemas)
  · obtain ⟨schemas, hl⟩ := hl
    intro P hP
    rw [acceptances_eq_map, listAt_eq_map hl, List.map_map] at hP
    obtain ⟨s, hs, rfl⟩ := List.mem_map.mp hP
    exact kept s (.member hkey hl hs) v (hall schemas hl s hs)
  · rw [listAt_eq_nil (fun schemas h => hl ⟨schemas, h⟩)]
    exact fun P hP => absurd hP (by simp [acceptances])

/-- One of the schemas of a list accepts the value, if the keyword asks for one. -/
theorem accepts_one (kept : PartsKept named fs) {key : String}
    (hkey : key ∈ ["allOf", "oneOf", "anyOf"])
    (hone : ∀ schemas, Json.lookup key fs = some (.array schemas) →
      ∃ s ∈ schemas, Satisfies named s v) :
    listAt fs key = [] ∨ ∃ P ∈ acceptances named (listAt fs key), P v := by
  by_cases hl : ∃ schemas, Json.lookup key fs = some (.array schemas)
  · obtain ⟨schemas, hl⟩ := hl
    obtain ⟨s, hs, hsat⟩ := hone schemas hl
    refine Or.inr ⟨Accepts named (ofJson s), ?_, kept s (.member hkey hl hs) v hsat⟩
    rw [acceptances_eq_map, listAt_eq_map hl, List.map_map]
    exact List.mem_map.mpr ⟨s, hs, rfl⟩
  · exact Or.inl (listAt_eq_nil fun schemas h => hl ⟨schemas, h⟩)

theorem accepts_composed (own : MeetsOwn fs v) (inner : Meets named (declaredNames fs) fs v)
    (kept : PartsKept named fs) (plain : PlainHere fs) (t : Traits) :
    Accepts named (.composed (nestedIn fs).allOf (nestedIn fs).oneOf (nestedIn fs).anyOf
      (discriminator? fs) (baseOf fs (nestedIn fs)) t) v := by
  have hd : discriminator? fs = none := by simp [discriminator?, plain.untagged]
  refine Or.inr ⟨hd, ?_, ?_, ?_, accepts_base own inner kept plain⟩
  · rw [nestedIn_eq]
    exact accepts_all kept (by simp) fun _ hl => inner.allOf hl
  · rw [nestedIn_eq]
    exact accepts_one kept (by simp) fun _ hl => inner.oneOf hl
  · rw [nestedIn_eq]
    exact accepts_one kept (by simp) fun _ hl => inner.anyOf hl

/-! ## 6. Whole schemas -/

/-- A schema whose types mix lists or objects with others accepts null if its traits do. -/
theorem accepts_uncombined_null {nested : Nested} {types : List String} {t : Traits}
    (h : t.nullable = true) : Accepts named (uncombined fs nested types t) .null := by
  unfold uncombined
  simp only
  split_ifs
  · exact Or.inl ⟨rfl, h⟩
  · exact accepts_single_null h

theorem nullable_readTraits : (readTraits fs).nullable = true ↔ Nullable fs := by
  rw [Nullable, readTraits, Bool.or_eq_true, Bool.or_eq_true, List.contains_iff_mem, or_assoc]

/-- A schema object that is no reference loses no value, if the schemas in it do not. -/
theorem accepts_ofFields (kept : PartsKept named fs) (plain : PlainHere fs)
    (href : textAt fs "$ref" = none)
    (h : (v = .null ∧ Nullable fs) ∨ (MeetsOwn fs v ∧ Meets named (declaredNames fs) fs v)) :
    Accepts named (ofFields fs (nestedIn fs)) v := by
  unfold ofFields
  simp only
  split
  · rename_i target hl
    rw [textAt, hl] at href
    exact absurd href (by simp [Json.asString?])
  rcases h with ⟨rfl, hn⟩ | ⟨own, inner⟩
  · have hn' := nullable_readTraits.mpr hn
    split_ifs
    · exact Or.inl ⟨rfl, hn'⟩
    · exact Or.inl ⟨rfl, hn'⟩
    · exact accepts_uncombined_null hn'
  · split_ifs with henum
    · exact accepts_enumerated own plain (Bool.or_eq_true _ _ ▸ henum) _
    · exact accepts_composed own inner kept plain _
    · exact accepts_uncombined own inner kept plain fun h =>
        nullable_readTraits.mpr (Or.inr (Or.inr h))

end Steps

/-- **Sorting loses no value.**  What satisfies a plain raw schema is accepted by the sorted
one. -/
theorem accepts_ofJson (named : String → Json → Prop) (S : Json) :
    Plain S → ∀ v, Satisfies named S v → Accepts named (ofJson S) v := by
  induction S using Part.induction with
  | step S ih =>
    intro plain v h
    cases S with
    | bool b =>
      rw [Satisfies] at h
      subst h
      trivial
    | object fs =>
      have kept : PartsKept named fs := fun s hs w => ih s hs (plain.part hs) w
      rw [ofJson]
      cases href : textAt fs "$ref" with
      | some target =>
        obtain ⟨w, hl, hw⟩ := Option.bind_eq_some_iff.mp href
        cases w with
        | string _ =>
          cases hw
          simp only [Satisfies, href] at h
          simpa only [ofFields, hl, Accepts] using h
        | null | bool _ | number _ | array _ | object _ =>
          exact absurd hw (by simp [Json.asString?])
      | none =>
        simp only [Satisfies, href] at h
        exact accepts_ofFields kept plain.here href h
    | null | number _ | string _ | array _ => exact absurd h (by simp [Satisfies])

end ApiTypes.Schema
