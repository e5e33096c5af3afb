/-
# Fragments with percent signs

A fragment of an address may hold few characters, so the usual way to write a pointer as one has
two steps: tildes and slashes of a segment are escaped, and then every byte that may not stand for
itself is written by a percent sign and two digits.  Which characters may stand for themselves is a
matter of style.  As long as tildes, letters and digits do, and percent signs and slashes do not,
the escapes are found where they were written, for no byte is written with a tilde, and what is
left when they are undone are the bytes of the segment.  Hash signs may stand for themselves or not:
a reference is cut at its first one, which stands before the fragment.

* `Text.Spelling` is a style, `Pointer.fragment` the text of a pointer in it.
* `Text.Spelling.decodeSegment_segment`: a segment is read back from its text.
* `Pointer.unescape_eq`: the two escapes may be undone one after the other.
* `Resolver.resolve_fragment`: every node of a document can be referred to in every style.
-/
import ApiTypes.Proofs.Pointer.Route
import ApiTypes.Proofs.Pointer.Text

namespace ApiTypes

/-! ## 1. Styles -/

namespace Text

/-- A style of writing fragments: the characters that stand for themselves, and the hexadecimal
digits, which may be in upper or lower case. -/
structure Spelling where
  plain : Char → Bool
  digit : Nat → Char
  ascii : ∀ c, plain c = true → c.toNat < 0x80
  tilde : plain '~' = true
  alphanum : ∀ c, c.isAlphanum = true → plain c = true
  percent : plain '%' = false
  slash : plain '/' = false
  hexDigit?_digit : ∀ n < 16, hexDigit? (digit n) = some n

namespace Spelling

variable {s : Spelling} {b : UInt8} {bs : List UInt8} {c : Char} {cs rest : List Char}

/-- A byte in a fragment. -/
def byte (s : Spelling) (b : UInt8) : List Char :=
  if s.plain (Char.ofNat b.toNat) then [Char.ofNat b.toNat]
  else ['%', s.digit (b.toNat / 16), s.digit (b.toNat % 16)]

/-- A segment in a fragment: its tildes and slashes are escaped, then its bytes are written. -/
def segment (s : Spelling) (cs : List Char) : List Char :=
  (utf8Bytes (Pointer.encodeSegment cs)).flatMap s.byte

theorem segment_cons : s.segment (c :: cs) =
    (utf8Bytes (Pointer.encodeChar c)).flatMap s.byte ++ s.segment cs := by
  simp [segment, Pointer.encodeSegment, utf8Bytes]

/-! ## 2. Bytes -/

/-- A character of ASCII is one byte. -/
theorem utf8EncodeChar_of_lt (h : c.toNat < 0x80) :
    String.utf8EncodeChar c = [UInt8.ofNat c.toNat] := by
  have hval : c.val.toNat ≤ 0x7F := Nat.le_of_lt_succ h
  rw [String.utf8EncodeChar, if_pos hval]
  rfl

theorem toNat_ofNat_of_lt (h : c.toNat < 0x80) : (UInt8.ofNat c.toNat).toNat = c.toNat := by
  rw [UInt8.toNat_ofNat']
  omega

/-- The bytes of the other characters are beyond ASCII. -/
theorem le_of_mem_utf8EncodeChar (h : 0x80 ≤ c.toNat) (hb : b ∈ String.utf8EncodeChar c) :
    0x80 ≤ b.toNat := by
  have hval : ¬c.val.toNat ≤ 0x7F := Nat.not_le_of_lt h
  rw [String.utf8EncodeChar, if_neg hval] at hb
  split_ifs at hb <;> simp only [List.mem_cons, List.not_mem_nil, or_false] at hb <;>
    rcases hb with rfl | rfl | rfl | rfl <;> rw [UInt8.toNat_ofNat'] <;> omega

/-- What stands for itself is written as itself. -/
theorem flatMap_byte_of_plain (h : s.plain c = true) :
    (String.utf8EncodeChar c).flatMap s.byte = [c] := by
  have hlt := s.ascii c h
  rw [utf8EncodeChar_of_lt hlt, List.flatMap_singleton, byte, toNat_ofNat_of_lt hlt,
    Char.ofNat_toNat, if_pos h]

/-- The bytes of anything else do not stand for themselves. -/
theorem plain_of_mem_utf8EncodeChar (h : s.plain c = false) (hb : b ∈ String.utf8EncodeChar c) :
    s.plain (Char.ofNat b.toNat) = false := by
  by_cases hlt : c.toNat < 0x80
  · rw [utf8EncodeChar_of_lt hlt, List.mem_singleton] at hb
    rwa [hb, toNat_ofNat_of_lt hlt, Char.ofNat_toNat]
  · have hle := le_of_mem_utf8EncodeChar (Nat.le_of_not_lt hlt) hb
    have hchar : (Char.ofNat b.toNat).toNat = b.toNat := by
      have hvalid : b.toNat.isValidChar := Or.inl (Nat.lt_trans b.toNat_lt (by decide))
      rw [Char.ofNat, dif_pos hvalid]
      rfl
    rw [Bool.eq_false_iff]
    intro hplain
    have := s.ascii _ hplain
    omega

/-- A digit is no character with a meaning of its own. -/
theorem digit_ne {n : Nat} (hn : n < 16) (h : hexDigit? c = none) : s.digit n ≠ c := by
  rintro rfl
  rw [s.hexDigit?_digit n hn] at h
  cases h

/-- What is written for a byte. -/
theorem eq_of_mem_byte (hc : c ∈ s.byte b) :
    s.plain c = true ∨ c = '%' ∨ ∃ n < 16, c = s.digit n := by
  have hlt := b.toNat_lt
  unfold byte at hc
  split_ifs at hc with hplain
  · exact Or.inl (List.mem_singleton.mp hc ▸ hplain)
  · simp only [List.mem_cons, List.not_mem_nil, or_false] at hc
    rcases hc with rfl | rfl | rfl
    · exact Or.inr (Or.inl rfl)
    · exact Or.inr (Or.inr ⟨_, by omega, rfl⟩)
    · exact Or.inr (Or.inr ⟨_, by omega, rfl⟩)

/-- No slash stands in the text of a segment. -/
theorem slash_notMem_segment : '/' ∉ s.segment cs := by
  intro h
  obtain ⟨b, _, hb⟩ := List.mem_flatMap.mp h
  rcases eq_of_mem_byte hb with hplain | hpercent | ⟨n, hn, hdigit⟩
  · rw [s.slash] at hplain
    cases hplain
  · exact absurd hpercent (by decide)
  · exact digit_ne hn (by decide) hdigit.symm

/-! ## 3. Reading a segment -/

/-- A character that is no tilde stands for itself. -/
theorem unescape_cons (h : c ≠ '~') : Pointer.unescape (c :: cs) = c :: Pointer.unescape cs := by
  rw [Pointer.unescape]
  · rintro _ rfl
    exact absurd rfl h
  · rintro _ rfl
    exact absurd rfl h

/-- The escapes are not mixed up with bytes, which are written without tildes. -/
theorem unescape_flatMap_byte (h : ∀ b ∈ bs, s.plain (Char.ofNat b.toNat) = false) :
    Pointer.unescape (bs.flatMap s.byte ++ rest) = bs.flatMap s.byte ++ Pointer.unescape rest := by
  induction bs with
  | nil => rfl
  | cons b bs ih =>
    obtain ⟨hb, hbs⟩ := List.forall_mem_cons.mp h
    have hlt := b.toNat_lt
    rw [List.flatMap_cons, List.append_assoc, byte, hb]
    simp only [Bool.false_eq_true, if_false, List.cons_append, List.nil_append]
    rw [unescape_cons (by decide), unescape_cons (digit_ne (by omega) (by decide)),
      unescape_cons (digit_ne (by omega) (by decide)), ih hbs]

/-- Bytes are read back from what is written for them. -/
theorem percentBytes_flatMap_byte (h : ∀ b ∈ bs, s.plain (Char.ofNat b.toNat) = false) :
    percentBytes (bs.flatMap s.byte ++ rest) = bs ++ percentBytes rest := by
  induction bs with
  | nil => rfl
  | cons b bs ih =>
    obtain ⟨hb, hbs⟩ := List.forall_mem_cons.mp h
    have hlt := b.toNat_lt
    have hvalue : 16 * (b.toNat / 16) + b.toNat % 16 = b.toNat := by omega
    rw [List.flatMap_cons, List.append_assoc, byte, hb]
    simp only [Bool.false_eq_true, if_false, List.cons_append, List.nil_append]
    rw [percentBytes_of_escapes (s.hexDigit?_digit _ (by omega)) (s.hexDigit?_digit _ (by omega)),
      hvalue, UInt8.ofNat_toNat, ih hbs]

/-- A character that is no percent sign is read as its own bytes. -/
theorem percentBytes_cons (h : c ≠ '%') :
    percentBytes (c :: cs) = String.utf8EncodeChar c ++ percentBytes cs := by
  refine percentBytes_of_not ?_
  rintro ⟨_, _, _, hpercent, _⟩
  exact h hpercent

/-- An escape stands for a character. -/
theorem read_escape {mark : Char} (hencode : Pointer.encodeChar c = ['~', mark])
    (hmark : s.plain mark = true) (hc : c ≠ '%')
    (hunescape : Pointer.unescape ('~' :: mark :: rest) = c :: Pointer.unescape rest) :
    percentBytes (Pointer.unescape ((utf8Bytes (Pointer.encodeChar c)).flatMap s.byte ++ rest)) =
      String.utf8EncodeChar c ++ percentBytes (Pointer.unescape rest) := by
  have hwritten : (utf8Bytes (Pointer.encodeChar c)).flatMap s.byte = ['~', mark] := by
    rw [hencode, utf8Bytes, List.flatMap_assoc]
    simp only [List.flatMap_cons, List.flatMap_nil, flatMap_byte_of_plain s.tilde,
      flatMap_byte_of_plain hmark]
    rfl
  rw [hwritten, List.cons_append, List.cons_append, List.nil_append, hunescape,
    percentBytes_cons hc]

/-- **What is written for a character is read as its bytes**, whatever follows it. -/
theorem read_char (c : Char) (rest : List Char) :
    percentBytes (Pointer.unescape ((utf8Bytes (Pointer.encodeChar c)).flatMap s.byte ++ rest)) =
      String.utf8EncodeChar c ++ percentBytes (Pointer.unescape rest) := by
  by_cases htilde : c = '~'
  · subst htilde
    exact read_escape rfl (s.alphanum '0' (by decide)) (by decide) (by rw [Pointer.unescape])
  by_cases hslash : c = '/'
  · subst hslash
    exact read_escape rfl (s.alphanum '1' (by decide)) (by decide) (by rw [Pointer.unescape])
  have hbytes : utf8Bytes (Pointer.encodeChar c) = String.utf8EncodeChar c := by
    rw [Pointer.encodeChar, if_neg htilde, if_neg hslash, utf8Bytes, List.flatMap_singleton]
  rw [hbytes]
  by_cases hplain : s.plain c = true
  · have hpercent : c ≠ '%' := by
      rintro rfl
      rw [s.percent] at hplain
      cases hplain
    rw [flatMap_byte_of_plain hplain, List.singleton_append, unescape_cons htilde,
      percentBytes_cons hpercent]
  · have hnone : ∀ b ∈ String.utf8EncodeChar c, s.plain (Char.ofNat b.toNat) = false :=
      fun b hb => plain_of_mem_utf8EncodeChar (Bool.eq_false_iff.mpr hplain) hb
    rw [unescape_flatMap_byte hnone, percentBytes_flatMap_byte hnone]

/-- **A segment is read back from its text.** -/
theorem decodeSegment_segment (cs : List Char) : Pointer.decodeSegment (s.segment cs) = cs := by
  have hbytes : percentBytes (Pointer.unescape (s.segment cs)) = utf8Bytes cs := by
    induction cs with
    | nil => rfl
    | cons c cs ih =>
      rw [segment_cons, read_char, ih]
      rfl
  rw [Pointer.decodeSegment, percentDecode, hbytes, decodeLossy_utf8Bytes]

end Spelling

/-- A text is cut at the first separator. -/
theorem cutAtFirst_append {separator : Char} {before : List Char} (h : separator ∉ before)
    (after : List Char) :
    cutAtFirst separator (before ++ separator :: after) = (before, some after) := by
  have hall : ∀ c ∈ before, decide (c ≠ separator) = true := fun c hc =>
    decide_eq_true fun heq => h (heq ▸ hc)
  rw [cutAtFirst, List.dropWhile_append_of_pos hall, List.takeWhile_append_of_pos hall]
  simp

end Text

/-! ## 4. Undoing the escapes one after the other -/

namespace Pointer

/-- Replaces a tilde and a mark by a character, from left to right. -/
def replaceEscape (mark c : Char) : List Char → List Char
  | [] => []
  | [d] => [d]
  | d :: e :: cs =>
    if d = '~' ∧ e = mark then c :: replaceEscape mark c cs
    else d :: replaceEscape mark c (e :: cs)

variable {mark c d : Char} {cs : List Char}

theorem replaceEscape_cons (h : d ≠ '~') :
    replaceEscape mark c (d :: cs) = d :: replaceEscape mark c cs := by
  cases cs with
  | nil => rfl
  | cons e cs => rw [replaceEscape, if_neg fun hand => h hand.1]

theorem replaceEscape_tilde (h : d ≠ mark) :
    replaceEscape mark c ('~' :: d :: cs) = '~' :: replaceEscape mark c (d :: cs) := by
  rw [replaceEscape, if_neg fun hand => h hand.2]

/-- Undoing the escapes of slashes brings no mark behind a tilde. -/
theorem exists_replaceEscape (cs : List Char) (h : d ≠ '0') :
    ∃ e es, replaceEscape '1' '/' (d :: cs) = e :: es ∧ e ≠ '0' := by
  by_cases hd : d = '~'
  · subst hd
    cases cs with
    | nil => exact ⟨_, _, rfl, h⟩
    | cons e cs =>
      by_cases he : e = '1'
      · rw [replaceEscape, if_pos ⟨rfl, he⟩]
        exact ⟨_, _, rfl, by decide⟩
      · rw [replaceEscape_tilde he]
        exact ⟨_, _, rfl, h⟩
  · rw [replaceEscape_cons hd]
    exact ⟨_, _, rfl, h⟩

/-- **The escapes may be undone one after the other**, slashes first: that leaves the escapes of
tildes as they are and makes no new ones. -/
theorem unescape_eq (cs : List Char) :
    unescape cs = replaceEscape '0' '~' (replaceEscape '1' '/' cs) := by
  induction cs using unescape.induct with
  | case1 cs ih =>
    rw [unescape, replaceEscape_tilde (by decide), replaceEscape_cons (d := '0') (by decide),
      replaceEscape, if_pos ⟨rfl, rfl⟩, ih]
  | case2 cs ih =>
    rw [unescape, replaceEscape, if_pos ⟨rfl, rfl⟩, replaceEscape_cons (by decide), ih]
  | case3 c cs hzero hone ih =>
    have hplain : unescape (c :: cs) = c :: unescape cs := by
      rw [unescape]
      · exact hzero
      · exact hone
    rw [hplain, ih]
    by_cases hc : c = '~'
    · subst hc
      cases cs with
      | nil => rfl
      | cons d cs =>
        have hd0 : d ≠ '0' := fun heq => hzero cs rfl (heq ▸ rfl)
        have hd1 : d ≠ '1' := fun heq => hone cs rfl (heq ▸ rfl)
        obtain ⟨e, es, he, hne⟩ := exists_replaceEscape cs hd0
        rw [replaceEscape_tilde hd1, he, replaceEscape_tilde hne]
    · rw [replaceEscape_cons hc, replaceEscape_cons hc]
  | case4 => rfl

/-! ## 5. Pointers -/

/-- The text of a pointer as the fragment of an address. -/
def fragment (s : Text.Spelling) (p : Pointer) : String :=
  String.ofList ('#' :: p.segments.flatMap fun t => '/' :: s.segment t.toList)

theorem parseChars?_fragment (s : Text.Spelling) (p : Pointer) :
    parseChars? (p.fragment s).toList = some p := by
  obtain ⟨segments⟩ := p
  rw [fragment, String.toList_ofList]
  cases segments with
  | nil => rfl
  | cons t ts =>
    rw [List.flatMap_cons, List.cons_append, parseChars?,
      Text.pieces_flatMap fun t : String => Text.Spelling.slash_notMem_segment]
    simp [Function.comp_def, Text.Spelling.decodeSegment_segment]

/-- A turn is taken for its plain spelling. -/
theorem step?_segment {v w : Json} {t : Turn} (hv : v.Addressable) (h : t.next? v = some w) :
    step? v t.segment = some w := by
  cases t with
  | key k =>
    obtain ⟨fs, hfs, hlookup⟩ := Option.bind_eq_some_iff.mp h
    cases v with
    | object _ =>
      cases hfs
      exact hlookup
    | null | bool _ | number _ | string _ | array _ => cases hfs
  | position i =>
    obtain ⟨items, hitems, hget⟩ := Option.bind_eq_some_iff.mp h
    cases v with
    | array _ =>
      cases hitems
      rw [Turn.segment, step?_item hv.length (List.getElem?_eq_some_iff.mp hget).1]
      exact hget
    | null | bool _ | number _ | string _ | object _ => cases hitems

/-- A path of keys and positions leads to its node. -/
theorem find?_of_follow? {ts : List Turn} : ∀ {root v : Json}, root.Addressable →
    follow? root ts = some v → find? root ⟨ts.map Turn.segment⟩ = some v := by
  induction ts with
  | nil => exact fun _ h => h
  | cons t ts ih =>
    intro root v hroot h
    obtain ⟨w, hw, hrest⟩ := Option.bind_eq_some_iff.mp h
    have hstep := step?_segment hroot hw
    rw [find?, List.map_cons, findFrom?, hstep, Option.bind_some]
    exact ih (hroot.step hstep) hrest

end Pointer

namespace Resolver

variable {r : Resolver} {s : Text.Spelling} {p : Pointer}

/-- A fragment is local, whatever the address of the document. -/
theorem localPointer?_fragment (self : Option OwnAddress) :
    localPointer? self (p.fragment s) = some p := by
  have hlocal : Reference.local? self (p.fragment s) = some (p.fragment s).toList := by
    rw [Reference.local?, Pointer.fragment, String.toList_ofList, Text.cutAtFirst]
    simp
  rw [localPointer?, hlocal, Option.bind_some, Pointer.parseChars?_fragment]

/-- So it is behind the address itself. -/
theorem localPointer?_self_fragment {self : OwnAddress} (hself : self.text ≠ "")
    (hhash : '#' ∉ self.text.toList) :
    localPointer? (some self) (self.text ++ p.fragment s) = some p := by
  have hlocal : Reference.local? (some self) (self.text ++ p.fragment s) =
      some (p.fragment s).toList := by
    rw [Reference.local?, String.toList_append, Pointer.fragment, String.toList_ofList,
      Text.cutAtFirst_append hhash]
    cases hcs : self.text.toList with
    | nil => exact absurd (String.toList_eq_nil_iff.mp hcs) hself
    | cons c cs =>
      have hdocument : String.ofList (c :: cs) = self.text := by rw [← hcs, String.ofList_toList]
      simp [hdocument, Reference.namesSelf]
  rw [localPointer?, hlocal, Option.bind_some, Pointer.parseChars?_fragment]

/-- A reference that spells the pointer of a node leads there. -/
theorem resolve_of_localPointer? {target : String} (location : Pointer) {v : Json}
    (hv : p.find? r.root = some v) (h : localPointer? r.self target = some p) :
    r.canonical target location = .ok p ∧ r.resolve target location = .ok (p, v) := by
  have hcanonical : r.canonical target location = .ok p := canonical_eq_ok_iff.mpr ⟨h, v, hv⟩
  exact ⟨hcanonical, resolve_eq_ok_iff.mpr ⟨hcanonical, hv⟩⟩

/-- **Every node can be referred to by a fragment, in every style.**  The fragment of the path of
keys and positions to a node is resolved to that path and that node, and so is the fragment behind
the address that the document gives itself. -/
theorem resolve_fragment {ts : List Pointer.Turn} {v : Json} (hroot : r.root.Addressable)
    (h : Pointer.follow? r.root ts = some v) (s : Text.Spelling) (location : Pointer) :
    let p : Pointer := ⟨ts.map Pointer.Turn.segment⟩
    r.canonical (p.fragment s) location = .ok p ∧
      r.resolve (p.fragment s) location = .ok (p, v) ∧
      ∀ self, r.self = some self → self.text ≠ "" → '#' ∉ self.text.toList →
        r.canonical (self.text ++ p.fragment s) location = .ok p ∧
          r.resolve (self.text ++ p.fragment s) location = .ok (p, v) := by
  have hv := Pointer.find?_of_follow? hroot h
  obtain ⟨hcanonical, hresolve⟩ := resolve_of_localPointer? location hv
    (localPointer?_fragment (s := s) r.self)
  refine ⟨hcanonical, hresolve, fun self hself hne hhash => resolve_of_localPointer? location hv ?_⟩
  rw [hself]
  exact localPointer?_self_fragment hne hhash

end Resolver

/-! ## 6. A document with an awkward key -/

/-- Letters and digits are characters of ASCII. -/
theorem Text.lt_of_isAlphanum {c : Char} (h : c.isAlphanum = true) : c.toNat < 0x80 := by
  unfold Char.isAlphanum Char.isAlpha Char.isUpper Char.isLower Char.isDigit at h
  rw [Bool.or_eq_true, Bool.or_eq_true] at h
  rcases h with (h | h) | h
  all_goals
    simp only [Bool.and_eq_true, decide_eq_true_eq] at h
    exact Nat.lt_of_le_of_lt h.2 (by decide)

/-- The style in which just the unreserved characters stand for themselves. -/
def Text.Spelling.unreserved : Text.Spelling where
  plain c := c.isAlphanum || ['-', '.', '_', '~'].contains c
  digit n := ("0123456789ABCDEF".toList[n]?).getD '0'
  ascii c h := by
    have hmarks : ['-', '.', '_', '~'].all (·.toNat < 0x80) = true := by decide
    rcases (Bool.or_eq_true _ _).mp h with h | h
    · exact lt_of_isAlphanum h
    · exact of_decide_eq_true (List.all_eq_true.mp hmarks c (List.contains_iff_mem.mp h))
  tilde := by decide
  alphanum c h := by rw [h, Bool.true_or]
  percent := by decide
  slash := by decide
  hexDigit?_digit := by decide

/-- A document with an address of its own, and a list under a key that no fragment may hold. -/
def awkwardListResolver : Resolver where
  root := .object [("paths", .object [("/pets/~é 100%", .array [.null, .bool true])])]
  self := some "https://example.com/api.yaml"

/-- The second item of the list is found by its fragment. -/
theorem Resolver.resolve_fragment_awkward :
    (⟨["paths", "/pets/~é 100%", "1"]⟩ : Pointer).fragment .unreserved =
        "#/paths/~1pets~1~0%C3%A9%20100%25/1" ∧
      awkwardListResolver.resolve "#/paths/~1pets~1~0%C3%A9%20100%25/1" .root =
        .ok (⟨["paths", "/pets/~é 100%", "1"]⟩, .bool true) ∧
      awkwardListResolver.resolve
          "https://example.com/api.yaml#/paths/~1pets~1~0%C3%A9%20100%25/1" .root =
        .ok (⟨["paths", "/pets/~é 100%", "1"]⟩, .bool true) := by
  have htext : (⟨["paths", "/pets/~é 100%", "1"]⟩ : Pointer).fragment .unreserved =
      "#/paths/~1pets~1~0%C3%A9%20100%25/1" := by decide +kernel
  have hroot : awkwardListResolver.root.Addressable :=
    Json.addressable_of_nodes (by decide +kernel)
  have hfollow : Pointer.follow? awkwardListResolver.root
      [.key "paths", .key "/pets/~é 100%", .position 1] = some (.bool true) := rfl
  obtain ⟨_, hresolve, hself⟩ := resolve_fragment hroot hfollow .unreserved .root
  have hsegments : [Pointer.Turn.key "paths", .key "/pets/~é 100%", .position 1].map
      Pointer.Turn.segment = ["paths", "/pets/~é 100%", "1"] := by decide +kernel
  rw [hsegments, htext] at hresolve hself
  exact ⟨htext, hresolve, (hself _ rfl (by decide) (by decide)).2⟩

end ApiTypes
