/-
# Reading the text of a pointer

The text of a pointer writes tildes and slashes of its segments in another way, and percent signs
as they are.  Reading undoes the first, so that slashes never mix up segments, and takes percent
signs for the start of a byte.  What is read is therefore the pointer with the percent signs of its
segments decoded, and the pointer itself only if none of them stands before two hexadecimal digits.

* `Pointer.percentDecoded` decodes the segments of a pointer.
* `Pointer.parse_text_iff`: what the text of a pointer is read as, and when it refers to the node
  that the pointer names.
-/
import ApiTypes.Proofs.Resolver
import ApiTypes.Proofs.Text.Utf8

namespace ApiTypes

namespace Pointer

/-- The pointer with its segments decoded. -/
def percentDecoded (p : Pointer) : Pointer :=
  ⟨p.segments.map fun s => String.ofList (Text.percentDecode s.toList)⟩

/-- Decoding keeps a pointer just if it keeps its segments. -/
theorem percentDecoded_eq_self_iff {p : Pointer} :
    p.percentDecoded = p ↔ ∀ s ∈ p.segments, ¬Text.HasEscape s.toList := by
  obtain ⟨segments⟩ := p
  have hsegment (s : String) : String.ofList (Text.percentDecode s.toList) = s ↔
      ¬Text.HasEscape s.toList := by
    rw [← Text.percentDecode_eq_self_iff, ← String.toList_inj, String.toList_ofList]
  have hmap := List.map_inj_left (l := segments)
    (f := fun s => String.ofList (Text.percentDecode s.toList)) (g := id)
  rw [List.map_id] at hmap
  rw [percentDecoded, Pointer.mk.injEq, hmap]
  exact forall₂_congr fun s _ => hsegment s

/-! ## 1. Segments -/

/-- No slash of a segment stays one. -/
theorem slash_notMem_encodeSegment (cs : List Char) : '/' ∉ encodeSegment cs := by
  intro h
  obtain ⟨c, _, hc⟩ := List.mem_flatMap.mp h
  unfold encodeChar at hc
  split_ifs at hc with htilde hslash
  · exact absurd hc (by decide)
  · exact absurd hc (by decide)
  · exact hslash (List.mem_singleton.mp hc).symm

/-- A written segment is read with its percent signs decoded. -/
theorem decodeSegment_encodeSegment (cs : List Char) :
    decodeSegment (encodeSegment cs) = Text.percentDecode cs := by
  rw [decodeSegment, unescape_encodeSegment]

/-! ## 2. Pointers -/

/-- The text of a pointer is read as the pointer with its segments decoded. -/
theorem parseChars?_chars (p : Pointer) : parseChars? p.chars = some p.percentDecoded := by
  obtain ⟨segments⟩ := p
  cases segments with
  | nil => rfl
  | cons s ss =>
    rw [chars, List.flatMap_cons, List.cons_append, parseChars?,
      Text.pieces_flatMap fun t : String => slash_notMem_encodeSegment t.toList, percentDecoded,
      List.map_map]
    simp only [Function.comp_def, decodeSegment_encodeSegment]

theorem parse?_text (p : Pointer) : parse? p.text = some p.percentDecoded := by
  rw [parse?, text, String.toList_ofList, parseChars?_chars]

end Pointer

namespace Resolver

/-- The text of a pointer is a reference into the document itself, whatever its address. -/
theorem localPointer?_text (self : Option OwnAddress) (p : Pointer) :
    localPointer? self p.text = some p.percentDecoded := by
  have hlocal : Reference.local? self p.text = some p.chars := by
    rw [Reference.local?, Pointer.text, String.toList_ofList, Pointer.chars, Text.cutAtFirst]
    simp
  rw [localPointer?, hlocal, Option.bind_some, Pointer.parseChars?_chars]

end Resolver

/-- A document in which a key has every character that pointers write in another way. -/
def awkwardResolver : Resolver where
  root := .object [("paths", .object [("/pets/~{id}", .object [("", .object [("100%",
    .bool true)])])])]

/-- **The text of a pointer is read as the pointer with the percent signs of its segments
decoded.**  So it is read as the pointer, and refers to the node that the pointer names, just if no
segment has a percent sign before two hexadecimal digits. -/
theorem Pointer.parse_text_iff (p : Pointer) :
    parse? p.text = some p.percentDecoded ∧
      (parse? p.text = some p ↔ ∀ s ∈ p.segments, ¬Text.HasEscape s.toList) ∧
      ∀ (r : Resolver) (location : Pointer) (v : Json), p.find? r.root = some v →
        (r.resolve p.text location = .ok (p, v) ↔
          ∀ s ∈ p.segments, ¬Text.HasEscape s.toList) := by
  refine ⟨p.parse?_text, ?_, fun r location v hv => ?_⟩
  · rw [parse?_text, Option.some.injEq, percentDecoded_eq_self_iff]
  · rw [Resolver.resolve_eq_ok_iff, Resolver.canonical_eq_ok_iff, Resolver.localPointer?_text,
      Option.some.injEq, percentDecoded_eq_self_iff]
    exact ⟨fun h => h.1.1, fun h => ⟨⟨h, v, hv⟩, hv⟩⟩

/-- A pointer with tildes, slashes, percent signs and an empty segment is read back from its text,
and found by it. -/
theorem Pointer.parse_text_awkward :
    parse? (⟨["paths", "/pets/~{id}", "", "100%"]⟩ : Pointer).text =
        some ⟨["paths", "/pets/~{id}", "", "100%"]⟩ ∧
      awkwardResolver.resolve "#/paths/~1pets~1~0{id}//100%" .root =
        .ok (⟨["paths", "/pets/~{id}", "", "100%"]⟩, .bool true) := by
  obtain ⟨-, hparse, hresolve⟩ := parse_text_iff ⟨["paths", "/pets/~{id}", "", "100%"]⟩
  have hplain : ∀ s ∈ ["paths", "/pets/~{id}", "", "100%"], ¬Text.HasEscape s.toList := by decide
  exact ⟨hparse.mpr hplain, (hresolve awkwardResolver .root (.bool true) rfl).mpr hplain⟩

/-- A percent sign before two digits is read as a byte. -/
theorem Pointer.exists_parse_text_ne :
    parse? (⟨["%41"]⟩ : Pointer).text = some ⟨["A"]⟩ ∧
      ¬∀ p : Pointer, parse? p.text = some p := by
  have hread : parse? (⟨["%41"]⟩ : Pointer).text = some ⟨["A"]⟩ := by decide +kernel
  refine ⟨hread, fun hall => ?_⟩
  rw [hall] at hread
  exact absurd hread (by decide)

end ApiTypes
