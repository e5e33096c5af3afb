/-
# Shapes as equality without comments

The comparison of shapes goes down into lists, records, unions, intersections and payloads, and
falls back to equality of expressions elsewhere, key patterns among that.  No comment is left to
the fallback as long as the parameters of a pattern are single values or unions of such, which is
all that a path can bring in.

* `TypeExpr.sameShape_eq_equal`: the shapes are compared as the expressions without the comments
  that `mapDoc` reaches.
* `TypeExpr.bare` is an expression without any comment, also inside key patterns;
  `TypeExpr.bare_eq_mapDoc`: it reaches no more where patterns are simple.
* `TypeExpr.sameShape_trans` and `TypeExpr.Exchanged`: shapes can be compared through a third one,
  and a part may be replaced by one of its shape.
* `TypeExpr.shape_laws` is all of it.
-/
import ApiTypes.Proofs.TypeExpr.Docs
import ApiTypes.Proofs.TypeExpr.Normal
import ApiTypes.Proofs.Typing.Interpolated

namespace ApiTypes

/-! ## 1. Equality can be chained -/

/-- A double is the same number as those that an equal one is. -/
theorem Binary64.sameValue_congr {x y : Binary64} (h : x.sameValue y = true) (z : Binary64) :
    x.sameValue z = y.sameValue z := by
  suffices ∀ {x y : Binary64}, x.sameValue y = true → y.sameValue z = true → x.sameValue z = true
    from Bool.eq_iff_iff.mpr ⟨this (Binary64.sameValue_symm h), this h⟩
  intro x y hxy hyz
  obtain ⟨hm, hs⟩ := sameValue_iff.mp hxy
  obtain ⟨hm', hs'⟩ := sameValue_iff.mp hyz
  refine sameValue_iff.mpr ⟨hm.trans hm', ?_⟩
  rcases hs with hs | hs
  · exact hs'.imp hs.trans hm.trans
  · exact Or.inr hs

theorem JsonNumber.sameValue_congr {m n : JsonNumber} (h : m.sameValue n = true)
    (k : JsonNumber) : m.sameValue k = n.sameValue k := by
  cases m <;> cases n
  case int.int =>
    simp only [sameValue, decide_eq_true_eq] at h
    rw [h]
  case float.float =>
    cases k with
    | int => rfl
    | float z => exact Binary64.sameValue_congr h z
  all_goals exact absurd h (by simp [sameValue])

theorem Literal.sameValue_congr {a b : Literal} (h : a.sameValue b = true) (l : Literal) :
    a.sameValue l = b.sameValue l := by
  cases a <;> cases b
  case number.number =>
    cases l with
    | number k => exact JsonNumber.sameValue_congr h k
    | _ => rfl
  case string.string | boolean.boolean =>
    simp only [sameValue, decide_eq_true_eq] at h
    rw [h]
  case null.null => rfl
  all_goals exact absurd h (by simp [sameValue])

namespace TypeExpr

mutual
/-- An expression is equal to those that an equal one is equal to. -/
theorem equal_congr (a b : TypeExpr) (h : equal a b = true) (c : TypeExpr) :
    equal a c = equal b c := by
  cases a with
  | list a m r =>
    cases b with
    | list b n s =>
      simp only [equal, Bool.and_eq_true, decide_eq_true_eq] at h
      obtain ⟨⟨rfl, rfl⟩, h⟩ := h
      cases c <;> simp only [equal, equal_congr a b h]
    | _ => exact absurd h (by simp [equal])
  | record r =>
    cases b with
    | record s =>
      rw [equal] at h
      cases c <;> simp only [equal, equalRecord_congr r s h]
    | _ => exact absurd h (by simp [equal])
  | union as =>
    cases b with
    | union bs =>
      rw [equal] at h
      cases c <;> simp only [equal, equalAll_congr as bs h]
    | _ => exact absurd h (by simp [equal])
  | intersection as =>
    cases b with
    | intersection bs =>
      rw [equal] at h
      cases c <;> simp only [equal, equalAll_congr as bs h]
    | _ => exact absurd h (by simp [equal])
  | withHeaders a h₁ =>
    cases b with
    | withHeaders b h₂ =>
      simp only [equal, Bool.and_eq_true] at h
      cases c <;> simp only [equal, equal_congr a b h.1, equalRecord_congr h₁ h₂ h.2]
    | _ => exact absurd h (by simp [equal])
  | literal l =>
    cases b with
    | literal l' =>
      rw [equal] at h
      cases c <;> simp only [equal, Literal.sameValue_congr h]
    | _ => exact absurd h (by simp [equal])
  | primitive | reference | operation | pick | never | unknown | void =>
    cases b <;> simp_all [equal]

theorem equalAll_congr : ∀ as bs : List TypeExpr, equalAll as bs = true → ∀ cs : List TypeExpr,
    equalAll as cs = equalAll bs cs
  | [], [], _, _ => rfl
  | [], _ :: _, h, _ => absurd h (by simp [equalAll])
  | _ :: _, [], h, _ => absurd h (by simp [equalAll])
  | a :: as, b :: bs, h, cs => by
    simp only [equalAll, Bool.and_eq_true] at h
    cases cs with
    | nil => simp only [equalAll]
    | cons c cs => rw [equalAll, equalAll, equal_congr a b h.1, equalAll_congr as bs h.2]

theorem equalRecord_congr : ∀ r s : Record TypeExpr, equalRecord r s = true →
    ∀ t : Record TypeExpr, equalRecord r t = equalRecord s t
  | ⟨ms, c, _⟩, ⟨ns, d, _⟩, h, ⟨_, _, _⟩ => by
    simp only [equalRecord, Bool.and_eq_true, decide_eq_true_eq] at h
    obtain ⟨⟨hms, hc⟩, rfl⟩ := h
    rw [equalRecord, equalRecord, equalMembers_congr ms ns hms, equalOption_congr c d hc]

theorem equalOption_congr : ∀ c d : Option TypeExpr, equalOption c d = true →
    ∀ e : Option TypeExpr, equalOption c e = equalOption d e
  | none, none, _, _ => rfl
  | none, some _, h, _ => absurd h (by simp [equalOption])
  | some _, none, h, _ => absurd h (by simp [equalOption])
  | some c, some d, h, e => by
    rw [equalOption] at h
    cases e with
    | none => simp only [equalOption]
    | some e => rw [equalOption, equalOption, equal_congr c d h]

theorem equalMembers_congr : ∀ ms ns : List (Member TypeExpr), equalMembers ms ns = true →
    ∀ os : List (Member TypeExpr), equalMembers ms os = equalMembers ns os
  | [], [], _, _ => rfl
  | [], _ :: _, h, _ => absurd h (by simp [equalMembers])
  | _ :: _, [], h, _ => absurd h (by simp [equalMembers])
  | ⟨k, t, _, _, _⟩ :: ms, ⟨l, u, _, _, _⟩ :: ns, h, os => by
    simp only [equalMembers, equalMember, Bool.and_eq_true, decide_eq_true_eq] at h
    obtain ⟨⟨⟨⟨⟨hk, ht⟩, rfl⟩, rfl⟩, rfl⟩, hms⟩ := h
    cases os with
    | nil => simp only [equalMembers]
    | cons o os =>
      rw [equalMembers, equalMembers, equalMember, equalMember, equalKey_congr k l hk,
        equal_congr t u ht, equalMembers_congr ms ns hms]

theorem equalKey_congr : ∀ k l : MemberKey TypeExpr, equalKey k l = true →
    ∀ m : MemberKey TypeExpr, equalKey k m = equalKey l m
  | .name _, .name _, h, _ => by
    simp only [equalKey, decide_eq_true_eq] at h
    rw [h]
  | .name _, .template _, h, _ => absurd h (by simp [equalKey])
  | .template _, .name _, h, _ => absurd h (by simp [equalKey])
  | .template as, .template bs, h, m => by
    rw [equalKey] at h
    cases m with
    | name => simp only [equalKey]
    | template cs => rw [equalKey, equalKey, equalParts_congr as bs h]

theorem equalParts_congr : ∀ as bs : List (TemplatePart TypeExpr), equalParts as bs = true →
    ∀ cs : List (TemplatePart TypeExpr), equalParts as cs = equalParts bs cs
  | [], [], _, _ => rfl
  | [], _ :: _, h, _ => absurd h (by simp [equalParts])
  | _ :: _, [], h, _ => absurd h (by simp [equalParts])
  | .text _ :: as, .text _ :: bs, h, cs => by
    simp only [equalParts, equalPart, Bool.and_eq_true, decide_eq_true_eq] at h
    cases cs with
    | nil => simp only [equalParts]
    | cons c cs => rw [equalParts, equalParts, h.1, equalParts_congr as bs h.2]
  | .text _ :: _, .param _ :: _, h, _ => absurd h (by simp [equalParts, equalPart])
  | .param _ :: _, .text _ :: _, h, _ => absurd h (by simp [equalParts, equalPart])
  | .param a :: as, .param b :: bs, h, cs => by
    simp only [equalParts, equalPart, Bool.and_eq_true] at h
    cases cs with
    | nil => simp only [equalParts]
    | cons c cs =>
      rw [equalParts, equalParts, equalParts_congr as bs h.2]
      cases c with
      | text => simp only [equalPart]
      | param c => rw [equalPart, equalPart, equal_congr a b h.1]
end

/-! ## 2. Shapes are compared without comments -/

mutual
/-- **Shapes are compared as the expressions without comments are.** -/
theorem sameShape_eq_equal : ∀ a b : TypeExpr,
    sameShape a b = equal (mapDoc (fun _ => none) a) (mapDoc (fun _ => none) b)
  | list a _ _, b => by cases b <;> simp [mapDoc, sameShape, equal, sameShape_eq_equal a]
  | record r, b => by cases b <;> simp [mapDoc, sameShape, equal, sameRecord_eq_equalRecord r]
  | union as, b => by cases b <;> simp [mapDoc, sameShape, equal, sameShapes_eq_equalAll as]
  | intersection as, b => by
    cases b <;> simp [mapDoc, sameShape, equal, sameShapes_eq_equalAll as]
  | withHeaders a h, b => by
    cases b <;> simp [mapDoc, sameShape, equal, sameShape_eq_equal a, sameRecord_eq_equalRecord h]
  | primitive _, b | literal _, b | reference _, b | operation _, b | pick _ _, b | never, b
  | unknown, b | void, b => by cases b <;> simp [mapDoc, sameShape, equal]

theorem sameShapes_eq_equalAll : ∀ as bs : List TypeExpr,
    sameShapes as bs = equalAll (mapDocs (fun _ => none) as) (mapDocs (fun _ => none) bs)
  | [], bs => by cases bs <;> simp [mapDocs, sameShapes, equalAll]
  | a :: as, [] => by simp [mapDocs, sameShapes, equalAll]
  | a :: as, b :: bs => by
    rw [mapDocs, mapDocs, sameShapes, equalAll, sameShape_eq_equal a, sameShapes_eq_equalAll as]

theorem sameRecord_eq_equalRecord : ∀ r s : Record TypeExpr,
    sameRecord r s = equalRecord (mapDocRecord (fun _ => none) r) (mapDocRecord (fun _ => none) s)
  | ⟨ms, c, _⟩, ⟨ns, d, _⟩ => by
    rw [mapDocRecord, mapDocRecord, sameRecord, equalRecord, sameMembers_eq_equalMembers ms,
      sameOption_eq_equalOption c]

theorem sameOption_eq_equalOption : ∀ c d : Option TypeExpr,
    sameOption c d = equalOption (mapDocOption (fun _ => none) c) (mapDocOption (fun _ => none) d)
  | none, d => by cases d <;> simp [mapDocOption, sameOption, equalOption]
  | some a, none => by simp [mapDocOption, sameOption, equalOption]
  | some a, some b => by
    rw [mapDocOption, mapDocOption, sameOption, equalOption, sameShape_eq_equal a]

theorem sameMembers_eq_equalMembers : ∀ ms ns : List (Member TypeExpr),
    sameMembers ms ns
      = equalMembers (mapDocMembers (fun _ => none) ms) (mapDocMembers (fun _ => none) ns)
  | [], ns => by cases ns <;> simp [mapDocMembers, sameMembers, equalMembers]
  | m :: ms, [] => by simp [mapDocMembers, sameMembers, equalMembers]
  | ⟨_, t, _, _, _⟩ :: ms, ⟨_, u, _, _, _⟩ :: ns => by
    simp [mapDocMembers, mapDocMember, sameMembers, sameMember, equalMembers, equalMember,
      sameShape_eq_equal t, sameMembers_eq_equalMembers ms]
end

/-- Shapes can be compared through a third one. -/
theorem sameShape_congr {a b : TypeExpr} (h : sameShape a b = true) (c : TypeExpr) :
    sameShape a c = sameShape b c := by
  rw [sameShape_eq_equal] at h
  rw [sameShape_eq_equal, sameShape_eq_equal, equal_congr _ _ h]

theorem sameShape_trans {a b c : TypeExpr} (hab : sameShape a b = true)
    (hbc : sameShape b c = true) : sameShape a c = true := by
  rw [sameShape_congr hab, hbc]

/-! ## 3. Expressions without any comment -/

mutual
/-- An expression without its comments, those inside key patterns included. -/
def bare : TypeExpr → TypeExpr
  | list e bounds readonly => list (bare e) bounds readonly
  | record r => record (bareRecord r)
  | union es => union (bares es)
  | intersection es => intersection (bares es)
  | withHeaders content headers => withHeaders (bare content) (bareRecord headers)
  | e => e

/-- The expressions of a list without comments. -/
def bares : List TypeExpr → List TypeExpr
  | [] => []
  | e :: es => bare e :: bares es

/-- A record without comments. -/
def bareRecord : Record TypeExpr → Record TypeExpr
  | ⟨ms, c, r⟩ => ⟨bareMembers ms, bareOption c, r⟩

/-- What is there, without comments. -/
def bareOption : Option TypeExpr → Option TypeExpr
  | none => none
  | some e => some (bare e)

/-- Members without comments. -/
def bareMembers : List (Member TypeExpr) → List (Member TypeExpr)
  | [] => []
  | m :: ms => bareMember m :: bareMembers ms

/-- A member without its comment. -/
def bareMember : Member TypeExpr → Member TypeExpr
  | ⟨key, type, optional, readonly, _⟩ => ⟨bareKey key, bare type, optional, readonly, none⟩

/-- A key without comments. -/
def bareKey : MemberKey TypeExpr → MemberKey TypeExpr
  | .name name => .name name
  | .template stretches => .template (bareStretches stretches)

/-- The stretches of a key pattern without comments. -/
def bareStretches : List (TemplatePart TypeExpr) → List (TemplatePart TypeExpr)
  | [] => []
  | .text text :: rest => .text text :: bareStretches rest
  | .param type :: rest => .param (bare type) :: bareStretches rest
end

/-- A single value, or a union of types of such. -/
inductive Simple : TypeExpr → Prop
  | primitive (p : Primitive) : Simple (.primitive p)
  | literal (l : Literal) : Simple (.literal l)
  | union {es : List TypeExpr} (members : ∀ e ∈ es, Simple e) : Simple (.union es)

/-- The parameters of the pattern of a key are simple. -/
def SimpleKey (k : MemberKey TypeExpr) : Prop :=
  ∀ stretches, k = .template stretches → ∀ e, .param e ∈ stretches → Simple e

/-- **The parameters of all key patterns in an expression are simple.** -/
def SimpleKeys (e : TypeExpr) : Prop :=
  Obeys (fun x => ∀ r, x = record r → ∀ m ∈ r.members, SimpleKey m.key) e

/-- What can stand in a pattern is simple. -/
theorem Interpolated.simple {e : TypeExpr} (h : Interpolated e) : Simple e := by
  induction h with
  | primitive p => exact .primitive p
  | @literal l notNull => exact .literal l
  | union members ih => exact .union ih

/-- What a path puts into a pattern is simple. -/
theorem simple_parameterType (declared : Option TypeExpr) :
    Simple (PathTemplate.parameterType declared) :=
  (PathTemplate.interpolated_parameterType declared).simple

theorem bares_eq_map (es : List TypeExpr) : bares es = es.map bare := by
  induction es with
  | nil => rfl
  | cons e es ih => rw [bares, ih, List.map_cons]

/-- There is no comment in a simple expression. -/
theorem Simple.bare_eq {e : TypeExpr} (h : Simple e) : bare e = e := by
  induction h with
  | primitive | literal => simp only [bare]
  | union _ ih => rw [bare, bares_eq_map, List.map_congr_left ih, List.map_id']

theorem bareStretches_eq {stretches : List (TemplatePart TypeExpr)}
    (h : ∀ e, .param e ∈ stretches → Simple e) : bareStretches stretches = stretches := by
  induction stretches with
  | nil => rfl
  | cons s rest ih =>
    have hrest := ih fun e he => h e (List.mem_cons_of_mem _ he)
    cases s with
    | text text => rw [bareStretches, hrest]
    | param e => rw [bareStretches, hrest, (h e List.mem_cons_self).bare_eq]

theorem SimpleKey.bareKey_eq {k : MemberKey TypeExpr} (h : SimpleKey k) : bareKey k = k := by
  cases k with
  | name => rfl
  | template stretches => rw [bareKey, bareStretches_eq (h stretches rfl)]

mutual
/-- **Where key patterns are simple, no comment is inside them.** -/
theorem bare_eq_mapDoc : ∀ e : TypeExpr, SimpleKeys e → bare e = mapDoc (fun _ => none) e
  | list e _ _, h => by rw [bare, mapDoc, bare_eq_mapDoc e (obeys_list_iff.mp h).2]
  | record r, h => by rw [bare, mapDoc, bareRecord_eq_mapDocRecord r h]
  | union es, h => by rw [bare, mapDoc, bares_eq_mapDocs es (obeys_of_union h)]
  | intersection es, h => by rw [bare, mapDoc, bares_eq_mapDocs es (obeys_of_intersection h)]
  | withHeaders content headers, h => by
    obtain ⟨_, hcontent, hheaders⟩ := obeys_withHeaders_iff.mp h
    rw [bare, mapDoc, bare_eq_mapDoc content hcontent, bareRecord_eq_mapDocRecord headers hheaders]
  | primitive _, _ | literal _, _ | reference _, _ | operation _, _ | pick _ _, _ | never, _
  | unknown, _ | void, _ => by simp [bare, mapDoc]

theorem bares_eq_mapDocs : ∀ es : List TypeExpr, (∀ e ∈ es, SimpleKeys e) →
    bares es = mapDocs (fun _ => none) es
  | [], _ => rfl
  | e :: es, h => by
    rw [bares, mapDocs, bare_eq_mapDoc e (h e List.mem_cons_self),
      bares_eq_mapDocs es fun x hx => h x (List.mem_cons_of_mem _ hx)]

theorem bareRecord_eq_mapDocRecord : ∀ r : Record TypeExpr, SimpleKeys (record r) →
    bareRecord r = mapDocRecord (fun _ => none) r
  | ⟨ms, c, _⟩, h => by
    obtain ⟨hkeys, hms, hc⟩ := obeys_record.mp h
    rw [bareRecord, mapDocRecord, bareMembers_eq_mapDocMembers ms (hkeys _ rfl)
      fun m hm => obeys_of_memberObeys (hms m hm), bareOption_eq_mapDocOption c hc]

theorem bareOption_eq_mapDocOption : ∀ c : Option TypeExpr, (∀ e, c = some e → SimpleKeys e) →
    bareOption c = mapDocOption (fun _ => none) c
  | none, _ => rfl
  | some e, h => by rw [bareOption, mapDocOption, bare_eq_mapDoc e (h e rfl)]

theorem bareMembers_eq_mapDocMembers : ∀ ms : List (Member TypeExpr),
    (∀ m ∈ ms, SimpleKey m.key) → (∀ m ∈ ms, SimpleKeys m.type) →
    bareMembers ms = mapDocMembers (fun _ => none) ms
  | [], _, _ => rfl
  | ⟨key, type, _, _, _⟩ :: ms, hkeys, htypes => by
    rw [bareMembers, mapDocMembers, bareMember, mapDocMember,
      (hkeys _ List.mem_cons_self).bareKey_eq, bare_eq_mapDoc type (htypes _ List.mem_cons_self),
      bareMembers_eq_mapDocMembers ms (fun m hm => hkeys m (List.mem_cons_of_mem _ hm))
        fun m hm => htypes m (List.mem_cons_of_mem _ hm)]
end

/-! ## 4. Replacing a part by one of its shape -/

/-- **Two expressions that differ in one part**, which is `x` in the one and `y` in the other. -/
inductive Exchanged (x y : TypeExpr) : TypeExpr → TypeExpr → Prop
  | here : Exchanged x y x y
  | element {a b : TypeExpr} (bounds : ListBounds) (readonly : Bool) (inner : Exchanged x y a b) :
      Exchanged x y (.list a bounds readonly) (.list b bounds readonly)
  | memberType {a b : TypeExpr} (before after : List (Member TypeExpr)) (m : Member TypeExpr)
      (c : Option TypeExpr) (readonly : Bool) (inner : Exchanged x y a b) :
      Exchanged x y (.record ⟨before ++ { m with type := a } :: after, c, readonly⟩)
        (.record ⟨before ++ { m with type := b } :: after, c, readonly⟩)
  | catchAll {a b : TypeExpr} (ms : List (Member TypeExpr)) (readonly : Bool)
      (inner : Exchanged x y a b) :
      Exchanged x y (.record ⟨ms, some a, readonly⟩) (.record ⟨ms, some b, readonly⟩)
  | alternative {a b : TypeExpr} (before after : List TypeExpr) (inner : Exchanged x y a b) :
      Exchanged x y (.union (before ++ a :: after)) (.union (before ++ b :: after))
  | constituent {a b : TypeExpr} (before after : List TypeExpr) (inner : Exchanged x y a b) :
      Exchanged x y (.intersection (before ++ a :: after)) (.intersection (before ++ b :: after))
  | content {a b : TypeExpr} (headers : Record TypeExpr) (inner : Exchanged x y a b) :
      Exchanged x y (.withHeaders a headers) (.withHeaders b headers)
  | headers {h i : Record TypeExpr} (content : TypeExpr)
      (inner : Exchanged x y (.record h) (.record i)) :
      Exchanged x y (.withHeaders content h) (.withHeaders content i)

theorem sameMember_self (m : Member TypeExpr) : sameMember m m = true := by
  obtain ⟨k, t, _, _, _⟩ := m
  simp [sameMember, equalKey_self k, sameShape_self t]

theorem sameShapes_append {a b : TypeExpr} (h : sameShape a b = true)
    (before after : List TypeExpr) :
    sameShapes (before ++ a :: after) (before ++ b :: after) = true := by
  induction before with
  | nil => simp [sameShapes, h, sameShapes_self]
  | cons e rest ih => simp [sameShapes, sameShape_self, ih]

theorem sameMembers_append {a b : TypeExpr} (h : sameShape a b = true)
    (before after : List (Member TypeExpr)) (m : Member TypeExpr) :
    sameMembers (before ++ { m with type := a } :: after)
      (before ++ { m with type := b } :: after) = true := by
  induction before with
  | nil => simp [sameMembers, sameMember, h, sameMembers_self, equalKey_self]
  | cons e rest ih => simp [sameMembers, sameMember_self, ih]

/-- **A part may be replaced by one of its shape**, at any depth. -/
theorem Exchanged.sameShape {x y a b : TypeExpr} (h : sameShape x y = true)
    (he : Exchanged x y a b) : sameShape a b = true := by
  induction he with
  | here => exact h
  | element _ _ _ ih => simp [TypeExpr.sameShape, ih]
  | memberType before after m c readonly _ ih =>
    simp [TypeExpr.sameShape, sameRecord, sameMembers_append ih, sameOption_self]
  | catchAll ms readonly _ ih =>
    simp [TypeExpr.sameShape, sameRecord, sameMembers_self, sameOption, ih]
  | alternative before after _ ih =>
    rw [TypeExpr.sameShape]
    exact sameShapes_append ih before after
  | constituent before after _ ih =>
    rw [TypeExpr.sameShape]
    exact sameShapes_append ih before after
  | content headers _ ih => simp [TypeExpr.sameShape, ih, sameRecord_self]
  | headers content _ ih =>
    rw [TypeExpr.sameShape] at ih
    simp [TypeExpr.sameShape, ih, sameShape_self]

/-! ## 5. The laws of shapes -/

/-- **Shapes are compared as expressions without any comment are**, where the parameters of key
patterns are simple, as those of paths always are; having one shape is an equivalence, and it does
not change when a part is replaced by one of its shape. -/
theorem shape_laws :
    (∀ a b, SimpleKeys a → SimpleKeys b →
      (sameShape a b = true ↔ equal (bare a) (bare b) = true)) ∧
    (∀ declared, Simple (PathTemplate.parameterType declared)) ∧
    (Equivalence fun a b => sameShape a b = true) ∧
    ∀ x y a b, sameShape x y = true → Exchanged x y a b → sameShape a b = true := by
  refine ⟨fun a b ha hb => ?_, simple_parameterType,
    ⟨sameShape_self, fun h => sameShape_symm _ _ h, sameShape_trans⟩,
    fun x y a b h he => he.sameShape h⟩
  rw [sameShape_eq_equal, bare_eq_mapDoc a ha, bare_eq_mapDoc b hb]

/-- A path whose parameter is a number or one text. -/
def petRoutes (doc : Option String) : TypeExpr :=
  closed [
    { key := .template
        [.text "/pets/", .param (union [primitive .number, literal (.string "first")])]
      type := unknown, doc }]

theorem simpleKeys_petRoutes (doc : Option String) : SimpleKeys (petRoutes doc) := by
  intro x hx r hr m hm
  subst hr
  simp only [petRoutes, closed, parts, recordParts, membersParts, memberParts, keyParts,
    templateParts, stretchParts, listParts, optionParts, List.append_nil, List.cons_append,
    List.nil_append, List.mem_cons, record.injEq, reduceCtorEq, List.not_mem_nil, or_self,
    or_false] at hx
  subst hx
  rw [List.mem_singleton.mp hm]
  rintro _ ⟨⟩ e he
  simp only [List.mem_cons, reduceCtorEq, TemplatePart.param.injEq, List.not_mem_nil, or_false,
    false_or] at he
  subst he
  exact .union (by simp [Simple.primitive, Simple.literal])

theorem shape_laws_petRoutes :
    sameShape (petRoutes (some "All pets.")) (petRoutes none) = true ∧
    sameShape (list (petRoutes (some "All pets.")) .unbounded false)
      (list (petRoutes none) .unbounded false) = true := by
  have h : sameShape (petRoutes (some "All pets.")) (petRoutes none) = true :=
    (shape_laws.1 _ _ (simpleKeys_petRoutes _) (simpleKeys_petRoutes _)).mpr
      (by simp [petRoutes, closed, bare, bareRecord, bareMembers, bareMember, equal_self])
  exact ⟨h, shape_laws.2.2.2 _ _ _ _ h (.element .unbounded false .here)⟩

end TypeExpr

end ApiTypes
