/-
# The tags of a union

An alternative that the mapping of a discriminator names is narrowed: it is put together with a
record of the one property whose value is the key.  It is narrowed once, by the first key whose
target is its pointer.  So a union offers the alternative under that key, and under another key for
the same target only if an alternative that is written out happens to have that type.

* `TypeExpr.narrowed` is a reference that is narrowed by a tag; `TypeExpr.sameShape_narrowed_iff`
  says what has its shape.
* `Typing.KeepsTags` says which tags the type of a list of alternatives keeps, and
  `Typing.keepsTags_of_alternatives` that this is what typing gives.
* `Typing.tags_of_composed` is the statement.
* `Typing.exists_tag_lost`: two keys for one target.
-/
import ApiTypes.Proofs.Decoder
import ApiTypes.Proofs.TypeExpr.Alternatives
import ApiTypes.Proofs.Typing.Building
import ApiTypes.Proofs.Typing.MemberOrder
import ApiTypes.Proofs.Typing.Recording

namespace ApiTypes

/-! ## 1. Narrowed references -/

namespace TypeExpr

variable {config : Config} {property tag tag' : String} {q q' : Pointer} {doc : Option String}
  {x : TypeExpr}

/-- A reference that is narrowed by a tag, with a comment if there is one. -/
def narrowed (config : Config) (property : String) (q : Pointer) (tag : String)
    (doc : Option String := none) : TypeExpr :=
  .intersection [.reference q,
    .closed [.of property (.literal (.string tag)) false config.immutableTypes doc]]

theorem sameShape_reference_iff : sameShape x (.reference q) = true ↔ x = .reference q := by
  cases x <;> simp [sameShape, equal]

theorem sameShape_text_iff :
    sameShape x (.literal (.string tag)) = true ↔ x = .literal (.string tag) := by
  cases x with
  | literal l => cases l <;> simp [sameShape, equal, Literal.sameValue]
  | _ => simp [sameShape, equal]

theorem equalKey_name_iff {k : MemberKey TypeExpr} {name : String} :
    equalKey k (.name name) = true ↔ k = .name name := by
  cases k <;> simp [equalKey]

/-- What has the shape of a record of one tag is such a record, with some comment. -/
theorem sameShape_closed_iff {readonly : Bool} :
    sameShape x (.closed [.of property (.literal (.string tag)) false readonly doc]) = true ↔
      ∃ doc', x = .closed [.of property (.literal (.string tag)) false readonly doc'] := by
  constructor
  · intro h
    cases x with
    | record r =>
      obtain ⟨ms, catchAll, catchAllReadonly⟩ := r
      simp only [closed, sameShape, sameRecord, Bool.and_eq_true, decide_eq_true_eq] at h
      obtain ⟨⟨hms, hcatch⟩, rfl⟩ := h
      cases catchAll with
      | some e => exact absurd hcatch (by simp [sameOption])
      | none =>
        rcases ms with _ | ⟨⟨key, type, optional, mark, doc'⟩, _ | ⟨m, ms⟩⟩
        · exact absurd hms (by simp [sameMembers])
        · simp only [Member.of, sameMembers, sameMember, equalKey_name_iff, sameShape_text_iff,
            Bool.and_eq_true, decide_eq_true_eq, and_true] at hms
          obtain ⟨⟨⟨rfl, rfl⟩, rfl⟩, rfl⟩ := hms
          exact ⟨doc', rfl⟩
        · exact absurd hms (by simp [sameMembers])
    | _ => exact absurd h (by simp [closed, sameShape, equal])
  · rintro ⟨doc', rfl⟩
    simp [closed, Member.of, sameShape, sameRecord, sameOption, sameMembers, sameMember, equalKey,
      equal, Literal.sameValue]

/-- **What has the shape of a narrowed reference** is that reference, narrowed by that tag. -/
theorem sameShape_narrowed_iff : sameShape x (narrowed config property q tag doc) = true ↔
    ∃ doc', x = narrowed config property q tag doc' := by
  constructor
  · intro h
    cases x with
    | intersection es =>
      rw [narrowed, sameShape] at h
      rcases es with _ | ⟨a, _ | ⟨b, _ | ⟨c, es⟩⟩⟩
      · exact absurd h (by simp [sameShapes])
      · exact absurd h (by simp [sameShapes])
      · simp only [sameShapes, sameShape_reference_iff, sameShape_closed_iff, Bool.and_eq_true,
          and_true] at h
        obtain ⟨rfl, doc', rfl⟩ := h
        exact ⟨doc', rfl⟩
      · exact absurd h (by simp [sameShapes])
    | _ => exact absurd h (by simp [narrowed, sameShape, equal])
  · rintro ⟨doc', rfl⟩
    rw [narrowed, narrowed, sameShape, sameShapes, sameShapes, sameShapes,
      sameShape_reference_iff.mpr rfl, sameShape_closed_iff.mpr ⟨doc', rfl⟩]
    rfl

/-- A narrowed reference shows its pointer and its tag. -/
theorem narrowed_inj {doc' : Option String}
    (h : narrowed config property q tag doc = narrowed config property q' tag' doc') :
    q = q' ∧ tag = tag' := by
  simp only [narrowed, closed, Member.of, intersection.injEq, List.cons.injEq, reference.injEq,
    record.injEq, Record.mk.injEq, Member.mk.injEq, literal.injEq, Literal.string.injEq] at h
  exact ⟨h.1, h.2.1.1.1.2.1⟩

/-- References to different pointers have different shapes, however they are narrowed. -/
theorem sameShape_narrowed_ne (h : q ≠ q') :
    sameShape (narrowed config property q tag) (narrowed config property q' tag') = false := by
  rw [Bool.eq_false_iff, Ne, sameShape_narrowed_iff]
  rintro ⟨doc, heq⟩
  exact h (narrowed_inj heq).1

/-- A plain reference does not offer a narrowed one. -/
theorem offers_reference :
    ¬ Offers (.reference q') (narrowed config property q tag) := by
  rintro ⟨a, ha, hsame⟩
  rw [List.mem_singleton.mp ha, sameShape_narrowed_iff] at hsame
  obtain ⟨doc, heq⟩ := hsame
  cases heq

theorem offers_narrowed_iff :
    Offers (narrowed config property q tag) (narrowed config property q' tag') ↔
      q = q' ∧ tag = tag' := by
  constructor
  · rintro ⟨a, ha, hsame⟩
    rw [List.mem_singleton.mp ha, sameShape_narrowed_iff] at hsame
    obtain ⟨doc, heq⟩ := hsame
    exact narrowed_inj heq
  · rintro ⟨rfl, rfl⟩
    exact ⟨_, List.mem_singleton_self _, sameShape_self _⟩

/-- **A union offers a narrowed reference just if one of its parts does.** -/
theorem offers_unionOf_narrowed {es : List TypeExpr} (h : ∀ e ∈ es, Normal e) :
    Offers (unionOf es) (narrowed config property q tag) ↔
      ∃ e ∈ es, Offers e (narrowed config property q tag) := by
  constructor
  · rintro ⟨a, ha, hsame⟩
    have hmem := mem_of_mem_distinct ((mem_alternatives_unionOf h).mp ha)
    obtain ⟨e, he, ha⟩ := List.mem_flatMap.mp hmem
    exact ⟨e, he, a, ha, hsame⟩
  · rintro ⟨e, he, a, ha, hsame⟩
    obtain ⟨b, hb, hkept⟩ := exists_mem_distinct (List.mem_flatMap.mpr ⟨e, he, ha⟩)
    refine ⟨b, (mem_alternatives_unionOf h).mpr hb, ?_⟩
    -- what has the shape of `a` is the narrowed reference as well, up to the comment
    obtain ⟨doc, rfl⟩ := sameShape_narrowed_iff.mp hsame
    exact sameShape_narrowed_iff.mpr (sameShape_narrowed_iff.mp hkept)

end TypeExpr

/-! ## 2. The types of alternatives -/

/-- All schemas. -/
def Sources.everything : Sources where
  Has _ := True
  Names _ _ := True
  inner _ _ := trivial
  property _ _ := trivial

namespace Typing

open Discriminator TypeExpr

variable {env : Environment} {depth : Nat} {p q : Pointer} {d : Discriminator}
  {members : List Schema} {s : Schema} {i : Nat} {v e : TypeExpr} {es : List TypeExpr}

/-- A schema has one type. -/
theorem Gives.schema_unique {v' : TypeExpr} (h : Gives (schema env depth p s) v)
    (h' : Gives (schema env depth p s) v') : v' = v :=
  (follows_schema s v h).2.1.eq_of_gives h'

/-- The type that is asked for at a position is that of the schema there. -/
theorem getElem?_nodes (ss : List Schema) (i n : Nat) :
    (nodes env depth p i ss)[n]? = ss[n]?.map fun s => schema env depth (p.item (i + n)) s := by
  induction ss generalizing i n with
  | nil =>
    rw [nodes]
    rfl
  | cons s rest ih =>
    rw [nodes]
    cases n with
    | zero => rfl
    | succ n => rw [List.getElem?_cons_succ, List.getElem?_cons_succ, ih, Nat.add_right_comm,
        Nat.add_assoc]

/-- An alternative that refers to a pointer is typed to a reference to it. -/
theorem Gives.eq_reference (h : Gives (schema env depth p s) v)
    (hq : memberPointer? env.resolver.self s = some q) : v = .reference q := by
  cases s with
  | reference target traits =>
    have hnode := h.of_within
    rw [node] at hnode
    obtain ⟨q', hq', hnode⟩ := hnode.of_bind
    obtain ⟨hlocal, _⟩ := Resolver.canonical_eq_ok_iff.mp hq'.of_reference
    rw [memberPointer?, hlocal, Option.some.injEq] at hq
    rw [hnode.of_pure, hq]
  | scalar | array | object | composed | enumerated | unknown => cases hq

/-- What becomes of the type of an alternative. -/
theorem Gives.of_arrange {tag : Option String} (hs : members[i]? = some s)
    (h : Gives (arrange env.config (some d) (nodes env depth p 0 members) (i, tag)) e) :
    ∃ v, Gives (schema env depth (p.item i) s) v ∧
      e = tag.elim v fun tag => withTag env.config d.property tag v := by
  obtain ⟨v, hv, h⟩ := h.of_bind
  rw [List.getD_eq_getElem?_getD, getElem?_nodes, hs, Nat.zero_add] at hv
  refine ⟨v, hv, ?_⟩
  cases tag <;> exact h.of_pure

theorem normal_of_arrange {step : Nat × Option String}
    (h : Gives (arrange env.config (some d) (nodes env depth p 0 members) step) e) : Normal e := by
  have hbuilt : Sources.everything.Builds env e :=
    builds_arrange (builds_nodes members fun _ _ => trivial) step e h
  exact (obeys_self hbuilt.obeys).1

/-! ## 3. Tags -/

/-- A tagged alternative is typed to its pointer, narrowed by the first key for it. -/
theorem Gives.of_tagged {step : Nat × Option String}
    (hstep : step ∈ taggedOrder env.resolver.self members d)
    (h : Gives (arrange env.config (some d) (nodes env depth p 0 members) step) e) :
    ∃ q tag, firstAt? (targets env.resolver.self members) q = some step.1 ∧
      firstTag? env.resolver.self d.mapping q = some tag ∧
      e = narrowed env.config d.property q tag := by
  obtain ⟨i, t⟩ := step
  obtain ⟨q, tag, hat, htag, rfl⟩ := mem_taggedOrder.mp hstep
  refine ⟨q, tag, hat, htag, ?_⟩
  have htarget := get_of_firstAt? hat
  rw [targets, List.getElem?_map, Option.map_eq_some_iff] at htarget
  obtain ⟨s, hs, hq⟩ := htarget
  obtain ⟨v, hv, he⟩ := h.of_arrange hs
  rw [he, hv.eq_reference hq]
  rfl

/-- Any other alternative has the type of its schema. -/
theorem Gives.of_untagged {step : Nat × Option String}
    (hstep : step ∈ memberOrder env.resolver.self members (some d))
    (hnot : step ∉ taggedOrder env.resolver.self members d)
    (h : Gives (arrange env.config (some d) (nodes env depth p 0 members) step) e) :
    ∃ s, members[step.1]? = some s ∧ Gives (schema env depth (p.item step.1) s) e := by
  have hrest := (List.mem_append.mp hstep).resolve_left hnot
  obtain ⟨i, hi, rfl⟩ := List.mem_map.mp hrest
  have hlt : i < members.length := List.mem_range.mp (List.mem_filter.mp hi).1
  obtain ⟨v, hv, rfl⟩ := h.of_arrange (List.getElem?_eq_getElem hlt)
  exact ⟨_, List.getElem?_eq_getElem hlt, hv⟩

/-- An alternative that is no reference has a type that offers an expression. -/
def WrittenOut (env : Environment) (depth : Nat) (p : Pointer) (members : List Schema)
    (x : TypeExpr) : Prop :=
  ∃ i s v, members[i]? = some s ∧ memberPointer? env.resolver.self s = none ∧
    Gives (schema env depth (p.item i) s) v ∧ v.Offers x

/-- **Which tags the type of a list of alternatives keeps.**  If the target of an entry is the
pointer of an alternative, then the alternative is narrowed by the first key for that target; and it
is narrowed by the key of the entry just if that is the first, or if a written out alternative has
such a type. -/
def KeepsTags (env : Environment) (depth : Nat) (p : Pointer) (d : Discriminator)
    (members : List Schema) (es : List TypeExpr) : Prop :=
  ∀ entry ∈ d.mapping, ∀ s ∈ members, ∀ q,
    mappingPointer? env.resolver.self entry.2 = some q →
    memberPointer? env.resolver.self s = some q →
    ∃ u first, es = [u] ∧ firstTag? env.resolver.self d.mapping q = some first ∧
      narrowed env.config d.property q first ∈ u.alternatives ∧
      (u.Offers (narrowed env.config d.property q entry.1) ↔
        entry.1 = first ∨
          WrittenOut env depth p members (narrowed env.config d.property q entry.1))

section Arranged

variable {vs : List TypeExpr}

/-- The types of alternatives that are taken in an order, narrowed where they have tags. -/
abbrev Arranged (env : Environment) (depth : Nat) (p : Pointer) (d : Discriminator)
    (members : List Schema) : List (Nat × Option String) → List TypeExpr → Prop :=
  List.Forall₂ fun step e =>
    Gives (arrange env.config (some d) (nodes env depth p 0 members) step) e

/-- The tagged alternatives have different shapes, since they refer to different pointers. -/
theorem pairwise_tagged
    (h : Arranged env depth p d members (taggedOrder env.resolver.self members d) vs) :
    vs.Pairwise fun a b => sameShape a b = false := by
  have hnodup := List.pairwise_iff_getElem.mp
    (List.pairwise_map.mp (nodup_taggedOrder env.resolver.self members d))
  rw [List.pairwise_iff_getElem]
  intro j k hj hk hlt
  obtain ⟨hlength, hget⟩ := List.forall₂_iff_get.mp h
  obtain ⟨q, tag, hq, _, heq⟩ := (hget j (hlength ▸ hj) hj).of_tagged (List.get_mem _ _)
  obtain ⟨q', tag', hq', _, heq'⟩ := (hget k (hlength ▸ hk) hk).of_tagged (List.get_mem _ _)
  rw [List.get_eq_getElem] at heq heq'
  rw [heq, heq']
  refine sameShape_narrowed_ne fun hsame => hnodup j k (hlength ▸ hj) (hlength ▸ hk) hlt ?_
  rw [hsame] at hq
  exact Option.some.inj (hq.symm.trans hq')

/-- A tagged alternative is narrowed. -/
theorem narrowed_mem {order : List (Nat × Option String)} {tag : String}
    (h : Arranged env depth p d members order vs)
    (hat : firstAt? (targets env.resolver.self members) q = some i)
    (htag : firstTag? env.resolver.self d.mapping q = some tag) (hstep : (i, some tag) ∈ order) :
    narrowed env.config d.property q tag ∈ vs := by
  obtain ⟨e, he, hgives⟩ := exists_of_forall₂ (List.Forall₂.flip h) hstep
  obtain ⟨q', tag', hat', htag', rfl⟩ :=
    Gives.of_tagged (mem_taggedOrder.mpr ⟨q, tag, hat, htag, rfl⟩) hgives
  obtain rfl := firstAt?_inj hat hat'
  rwa [Option.some.inj (htag.symm.trans htag')]

/-- **A tagged alternative is kept**: the tagged ones come first. -/
theorem narrowed_mem_distinct {tag : String}
    (h : Arranged env depth p d members (memberOrder env.resolver.self members (some d)) vs)
    (hat : firstAt? (targets env.resolver.self members) q = some i)
    (htag : firstTag? env.resolver.self d.mapping q = some tag) :
    narrowed env.config d.property q tag ∈ distinct (vs.flatMap TypeExpr.alternatives) := by
  set tagged := taggedOrder env.resolver.self members d with htagged
  have hts : Arranged env depth p d members tagged (vs.take tagged.length) := by
    have htake := List.forall₂_take tagged.length h
    rwa [memberOrder, Option.map_some, Option.getD_some, ← htagged, List.take_left] at htake
  have halone : (vs.take tagged.length).flatMap TypeExpr.alternatives = vs.take tagged.length := by
    refine (List.flatMap_congr fun e he => ?_).trans (List.flatMap_singleton' _)
    obtain ⟨step, hstep, he⟩ := exists_of_forall₂ hts he
    obtain ⟨_, _, _, _, rfl⟩ := he.of_tagged hstep
    rfl
  rw [← List.take_append_drop tagged.length vs, List.flatMap_append, halone]
  refine mem_distinct_append (pairwise_tagged hts) ?_
  exact narrowed_mem hts hat htag (mem_taggedOrder.mpr ⟨q, tag, hat, htag, rfl⟩)

/-- A narrowed reference is offered by the tagged alternative, or is written out. -/
theorem exists_offers_iff {tag : String}
    (h : Arranged env depth p d members (memberOrder env.resolver.self members (some d)) vs)
    (hat : firstAt? (targets env.resolver.self members) q = some i) :
    (∃ e ∈ vs, Offers e (narrowed env.config d.property q tag)) ↔
      firstTag? env.resolver.self d.mapping q = some tag ∨
        WrittenOut env depth p members (narrowed env.config d.property q tag) := by
  constructor
  · rintro ⟨e, he, hoffers⟩
    obtain ⟨step, hstep, hgives⟩ := exists_of_forall₂ h he
    by_cases htagged : step ∈ taggedOrder env.resolver.self members d
    · obtain ⟨q', tag', _, htag', rfl⟩ := hgives.of_tagged htagged
      obtain ⟨rfl, rfl⟩ := offers_narrowed_iff.mp hoffers
      exact Or.inl htag'
    · obtain ⟨s, hs, hgives⟩ := hgives.of_untagged hstep htagged
      cases hq : memberPointer? env.resolver.self s with
      | none => exact Or.inr ⟨step.1, s, e, hs, hq, hgives, hoffers⟩
      | some q' =>
        rw [hgives.eq_reference hq] at hoffers
        exact (offers_reference hoffers).elim
  · rintro (htag | ⟨i, s, v, hs, hnone, hv, hoffers⟩)
    · have hstep : (i, some tag) ∈ memberOrder env.resolver.self members (some d) :=
        List.mem_append_left _ (mem_taggedOrder.mpr ⟨q, tag, hat, htag, rfl⟩)
      exact ⟨_, narrowed_mem h hat htag hstep, offers_narrowed_iff.mpr ⟨rfl, rfl⟩⟩
    · obtain ⟨e, he, hgives⟩ :=
        exists_of_forall₂ (List.Forall₂.flip h) (mem_memberOrder_of_none hs hnone)
      obtain ⟨v', hv', rfl⟩ := Gives.of_arrange hs hgives
      rw [hv.schema_unique hv'] at he
      exact ⟨v, he, hoffers⟩

/-- **The tags that the type of a list of alternatives keeps.** -/
theorem keepsTags_of_alternatives
    (h : Gives (alternatives env (some d) members (nodes env depth p 0 members)) es) :
    KeepsTags env depth p d members es := by
  intro entry hentry s hs q hwanted hmember
  obtain ⟨first, hfirst⟩ := exists_firstTag? ⟨entry, hentry, hwanted⟩
  obtain ⟨i, hat⟩ := exists_firstAt? ⟨s, hs, hmember⟩
  obtain ⟨vs, rfl, hvs⟩ := h.exists_arranged (List.ne_nil_of_mem hs)
  have hnormal : ∀ e ∈ vs, Normal e := by
    intro e he
    obtain ⟨step, _, hgives⟩ := exists_of_forall₂ hvs he
    exact normal_of_arrange hgives
  refine ⟨unionOf vs, first, rfl, hfirst, ?_, ?_⟩
  · exact (mem_alternatives_unionOf hnormal).mpr (narrowed_mem_distinct hvs hat hfirst)
  · rw [offers_unionOf_narrowed hnormal, exists_offers_iff hvs hat, hfirst, Option.some.injEq,
      eq_comm]

end Arranged

/-- **The tags of a combination.**  The type of a schema with a discriminator is made of the types
of its two lists of alternatives, among others.  Each of these keeps one tag for every pointer that
is both the target of an entry and that of an alternative, and it is the first key. -/
theorem tags_of_composed {allOf oneOf anyOf : List Schema} {base : Option Schema} {traits : Traits}
    (h : Gives (schema env depth p (.composed allOf oneOf anyOf (some d) base traits)) e) :
    ∃ all one any own,
      e = withNull env.config traits (.intersectionOf (all ++ one ++ any ++ own)) ∧
      Gives (alternatives env (some d) oneOf
        (nodes env (depth + 1) (p.child "oneOf") 0 oneOf)) one ∧
      Gives (alternatives env (some d) anyOf
        (nodes env (depth + 1) (p.child "anyOf") 0 anyOf)) any ∧
      KeepsTags env (depth + 1) (p.child "oneOf") d oneOf one ∧
      KeepsTags env (depth + 1) (p.child "anyOf") d anyOf any := by
  have hnode := h.of_within
  rw [node] at hnode
  obtain ⟨all, _, hnode⟩ := hnode.of_bind
  obtain ⟨one, hone, hnode⟩ := hnode.of_bind
  obtain ⟨any, hany, hnode⟩ := hnode.of_bind
  obtain ⟨own, he⟩ : ∃ own,
      e = withNull env.config traits (.intersectionOf (all ++ one ++ any ++ own)) := by
    cases base with
    | none => exact ⟨[], hnode.of_pure⟩
    | some base =>
      obtain ⟨own, _, hnode⟩ := hnode.of_bind
      exact ⟨[own], hnode.of_pure⟩
  exact ⟨all, one, any, own, he, hone, hany, keepsTags_of_alternatives hone,
    keepsTags_of_alternatives hany⟩

/-! ## 4. An instance -/

/-- A document that describes cats and dogs. -/
def petEnvironment : Environment where
  resolver := ⟨.object [("components", .object [("schemas", .object [
    ("Cat", .object []), ("Dog", .object [])])])], none⟩

/-- The mapping of a discriminator with two keys for cats. -/
def petTags : Discriminator :=
  ⟨"kind", [("cat", "#/components/schemas/Cat"), ("tom", "Cat"), ("dog", "Dog")]⟩

/-- The alternatives. -/
def petMembers : List Schema :=
  [.reference "#/components/schemas/Dog" {}, .reference "#/components/schemas/Cat" {}]

/-- Cats and dogs. -/
def petUnion : Schema := .composed [] petMembers [] (some petTags) none {}

/-- The pointer of cats. -/
def catPointer : Pointer := ⟨["components", "schemas", "Cat"]⟩

/-- The type of cats and dogs. -/
def petUnionType : TypeExpr :=
  .union [narrowed {} "kind" catPointer "cat",
    narrowed {} "kind" ⟨["components", "schemas", "Dog"]⟩ "dog"]

theorem tags_petUnion : ∃ e, Gives (schema petEnvironment 0 .root petUnion) e ∧
    sameShape e petUnionType = true ∧ ∃ all one any own,
      e = withNull {} {} (.intersectionOf (all ++ one ++ any ++ own)) ∧
      Gives (alternatives petEnvironment (some petTags) petMembers
        (nodes petEnvironment 1 (Pointer.root.child "oneOf") 0 petMembers)) one ∧
      Gives (alternatives petEnvironment (some petTags) []
        (nodes petEnvironment 1 (Pointer.root.child "anyOf") 0 [])) any ∧
      KeepsTags petEnvironment 1 (Pointer.root.child "oneOf") petTags petMembers one ∧
      KeepsTags petEnvironment 1 (Pointer.root.child "anyOf") petTags [] any := by
  obtain ⟨e, he, hshape⟩ := exists_gives_of_any (p := fun e => sameShape e petUnionType)
    (t := schema petEnvironment 0 .root petUnion) (by decide +kernel)
  exact ⟨e, he, hshape, tags_of_composed he⟩

/-- **A tag is lost**: no alternative of the type stands for the second key of cats. -/
theorem exists_tag_lost : ∃ e, Gives (schema petEnvironment 0 .root petUnion) e ∧
    ∃ entry ∈ petTags.mapping, ∃ s ∈ petMembers, ∃ q,
      mappingPointer? none entry.2 = some q ∧ memberPointer? none s = some q ∧
        ¬ e.Offers (narrowed {} "kind" q entry.1) := by
  obtain ⟨e, he, hnone⟩ := exists_gives_of_any (t := schema petEnvironment 0 .root petUnion)
    (p := fun e => !e.alternatives.any (sameShape · (narrowed {} "kind" catPointer "tom")))
    (by decide +kernel)
  refine ⟨e, he, ("tom", "Cat"), by simp [petTags], .reference "#/components/schemas/Cat" {},
    by simp [petMembers], catPointer, by decide +kernel, by decide +kernel, ?_⟩
  rintro ⟨a, ha, hsame⟩
  rw [Bool.not_eq_true', List.any_eq_false] at hnone
  exact hnone a ha hsame

end Typing

end ApiTypes
