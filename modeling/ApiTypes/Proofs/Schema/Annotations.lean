/-
# Annotations

Some keywords of a schema are words for its readers: its title and description, examples,
extensions, and names that must be there in an object that declares none.  Sorting reads them
for comments only, with one exception: beside a combination the type `object` says nothing as
long as it stands alone, and a word that is not sorted away leaves it in company.

* `Schema.Reannotated fs gs`: the schema objects differ in annotations only.
* `Schema.interchangeable_of_reannotated`: they may stand for each other if the exception
  concerns neither or both.
* `Schema.sameShape_of_reannotated`: so the schemas around them have one type, comments apart.
* `Schema.ne_of_reannotated_bare`: a word that makes a difference.
-/
import ApiTypes.Decoder
import ApiTypes.Proofs.Schema.Interchange
import Mathlib

namespace ApiTypes.Schema

variable {fs gs : List (String × Json)}

/-- The keywords that are words in every schema. -/
def annotationKeywords : List String :=
  ["title", "description", "format", "deprecated", "example", "examples", "writeOnly",
    "externalDocs", "xml"]

/-- A key of a schema object that bears on no value: a word, an extension other than the one
that allows null, or the names that must be there if no properties are declared. -/
def IsAnnotation (fs : List (String × Json)) (key : String) : Prop :=
  key ∈ annotationKeywords ∨ (Decoder.isExtension key = true ∧ key ≠ "x-nullable") ∨
    (key = "required" ∧ hasKey fs "properties" = false)

/-- The schema objects differ in annotations only: some are added, changed or removed. -/
def Reannotated (fs gs : List (String × Json)) : Prop :=
  ∀ key, ¬ IsAnnotation fs key → Json.lookup key fs = Json.lookup key gs

/-! ## 1. What sorting reads -/

/-- The keywords that bear on the type are no annotations. -/
theorem not_annotates {key : String} (hkey : key ∈ decidingKeywords ++ nestedKeywords) :
    ¬ IsAnnotation fs key := by
  have hfixed : ∀ key ∈ decidingKeywords ++ nestedKeywords, key ∉ annotationKeywords ∧
      (Decoder.isExtension key = true → key = "x-nullable") ∧ key ≠ "required" := by
    decide
  obtain ⟨hword, hextension, hrequired⟩ := hfixed key hkey
  rintro (h | ⟨h, hne⟩ | ⟨h, _⟩)
  · exact hword h
  · exact hne (hextension h)
  · exact hrequired h

theorem Reannotated.lookup_eq (h : Reannotated fs gs) {key : String}
    (hkey : key ∈ decidingKeywords ++ nestedKeywords) :
    Json.lookup key fs = Json.lookup key gs :=
  h key (not_annotates hkey)

/-- Names that must be there are an annotation only where there are no properties. -/
theorem Reannotated.required (h : Reannotated fs gs) :
    Json.lookup "required" fs = Json.lookup "required" gs ∨ hasKey fs "properties" = false := by
  by_cases hp : hasKey fs "properties" = false
  · exact .inr hp
  · refine .inl (h "required" ?_)
    rintro (h | ⟨h, _⟩ | ⟨_, h⟩)
    · exact absurd h (by decide)
    · exact absurd h (by decide)
    · exact hp h

theorem Reannotated.readAlike (h : Reannotated fs gs)
    (hb : Combines fs → bareObject fs = bareObject gs) :
    ReadAlike (fun _ => none) fs gs where
  deciding key hkey := h.lookup_eq (List.mem_append_left _ hkey)
  nested key hkey := by rw [hasKey, hasKey, h.lookup_eq (List.mem_append_right _ hkey)]
  required := h.required
  base := hb
  doc := rfl

/-! ## 2. Whole schemas -/

/-- **Annotations do not matter**, comments apart, unless they change whether a combination says
anything about itself. -/
theorem interchangeable_of_reannotated (h : Reannotated fs gs)
    (hb : Combines fs → bareObject fs = bareObject gs) :
    Interchangeable (fun _ => none) (ofJson (.object fs)) (ofJson (.object gs)) := by
  refine interchangeable_object (h.readAlike hb) fun key hkey => ?_
  rw [FieldAlike, h.lookup_eq (List.mem_append_right _ hkey)]
  exact fieldAlike_refl gs key

/-- **Annotations never influence the type.**  The annotations of a schema object are changed,
anywhere in a schema; unless that changes whether the type `object` stands alone beside a
combination, both schemas fail with the same fault or have types of one shape. -/
theorem sameShape_of_reannotated (h : Reannotated fs gs)
    (hb : Combines fs → bareObject fs = bareObject gs) {S S' : Json} (hr : Replaced fs gs S S')
    (env : Environment) (depth : Nat) (p : Pointer) :
    (∃ e refs, (Typing.schema env depth p (ofJson S)).run = (.error e, refs) ∧
        (Typing.schema env depth p (ofJson S')).run = (.error e, refs)) ∨
      ∃ a b refs, (Typing.schema env depth p (ofJson S)).run = (.ok a, refs) ∧
        (Typing.schema env depth p (ofJson S')).run = (.ok b, refs) ∧ a.sameShape b = true := by
  have halike := hr.interchangeable (interchangeable_of_reannotated h hb)
  refine (Typing.Parallel.within fun depth => ?_).run
  exact (halike.node env depth p).mono fun a b hab => TypeExpr.sameShape_of_mapDoc hab

/-- A combination with a property of its own. -/
def described : List (String × Json) :=
  [("type", .string "object"), ("properties", .object [("name", .object [])]),
    ("oneOf", .array [.object [("$ref", .string "#/components/schemas/Cat")]]),
    ("description", .string "An animal")]

/-- The same, annotated in another way. -/
def reworded : List (String × Json) :=
  [("type", .string "object"), ("x-internal", .bool true),
    ("properties", .object [("name", .object [])]),
    ("oneOf", .array [.object [("$ref", .string "#/components/schemas/Cat")]])]

theorem reannotated_reworded : Reannotated described reworded := by
  intro key hkey
  have hne : ¬ "description" = key ∧ ¬ "x-internal" = key := by
    refine ⟨?_, ?_⟩
    · rintro rfl
      exact hkey (.inl (by decide))
    · rintro rfl
      exact hkey (.inr (.inl (by decide)))
  simp [described, reworded, Json.lookup, hne]

/-- A document with the schema that the combination refers to. -/
def catEnvironment : Environment where
  resolver := ⟨.object [("components", .object [("schemas", .object [("Cat", .object [])])])], none⟩

/-- Lists of the combination have one type, comments apart. -/
theorem sameShape_reworded : Reannotated described reworded ∧ Combines described ∧
    bareObject described = bareObject reworded ∧
    ∃ a b refs, (Typing.schema catEnvironment 0 .root
        (ofJson (.object [("items", .object described)]))).run = (.ok a, refs) ∧
      (Typing.schema catEnvironment 0 .root
        (ofJson (.object [("items", .object reworded)]))).run = (.ok b, refs) ∧
      a.sameShape b = true := by
  refine ⟨reannotated_reworded, ⟨by decide, by decide, by decide⟩, by cbv, ?_⟩
  have hr : Replaced described reworded (.object [("items", .object described)])
      (.object [("items", .object reworded)]) := @Replaced.items _ _ [] [] _ _ .here
  rcases sameShape_of_reannotated reannotated_reworded (fun _ => by cbv) hr catEnvironment 0 .root
    with ⟨e, refs, he, _⟩ | h
  · have hok : (Typing.schema catEnvironment 0 .root
        (ofJson (.object [("items", .object described)]))).run.1.isOk = true := by cbv
    rw [he] at hok
    cases hok
  · exact h

/-- A combination beside the type of objects. -/
def bareUnion : List (String × Json) :=
  [("type", .string "object"), ("oneOf", .array [.object [("type", .string "string")]])]

/-- The same with a format. -/
def formattedUnion : List (String × Json) := bareUnion ++ [("format", .string "x")]

theorem reannotated_formattedUnion : Reannotated bareUnion formattedUnion := by
  intro key hkey
  have hne : ¬ "format" = key := by
    rintro rfl
    exact hkey (.inl (by decide))
  simp [bareUnion, formattedUnion, Json.lookup, hne]

/-- A format makes a difference where it stands beside a combination and the type of objects. -/
theorem ne_of_reannotated_bare : Reannotated bareUnion formattedUnion ∧
    (∃ a b, (Typing.schema ⟨{}, ⟨.null, none⟩⟩ 0 .root (ofJson (.object bareUnion))).run
        = (.ok a, []) ∧
      (Typing.schema ⟨{}, ⟨.null, none⟩⟩ 0 .root (ofJson (.object formattedUnion))).run
        = (.ok b, []) ∧ a.sameShape b = false) :=
  ⟨reannotated_formattedUnion, .primitive .string,
    .intersection [.primitive .string, .record ⟨[], none, false⟩], by cbv, by cbv, by cbv⟩

end ApiTypes.Schema
