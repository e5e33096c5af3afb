/-
# Two typings that agree

Two runs of the typing may meet the parts of a document in different orders.  They agree when
both fail, or both succeed with related results and record the same pointers; where either
starts from does not matter, so agreement composes along the steps of a typing, and steps may
be taken in another order.

* `Typing.Agree R t u` is agreement up to a relation between the results.
* `Typing.Agree.bind`, `Typing.Agree.mapM`, … : one lemma for each kind of step.
* `Typing.agree_mapM_perm` and `Typing.agree_rearranged`: the items of a list may be typed in
  any order.
-/
import ApiTypes.Proofs.Pointer
import ApiTypes.Proofs.Typing.Outcome
import Mathlib.Data.List.Perm.Basic

namespace ApiTypes.Typing

variable {α β γ δ : Type}

/-! ## 1. Agreement -/

/-- From any pointers on, a typing succeeds with a result and records the pointers in `A`, in
their order. -/
def Yields (t : Typing α) (a : α) (A : Pointer → Prop) : Prop :=
  ∀ refs, ∃ refs', ExceptT.run t refs = (.ok a, refs') ∧
    (Pointer.Ascending refs → Pointer.Ascending refs') ∧ ∀ q, q ∈ refs' ↔ q ∈ refs ∨ A q

/-- From any pointers on, a typing fails. -/
def Fails (t : Typing α) : Prop := ∀ refs, ∃ e refs', ExceptT.run t refs = (.error e, refs')

/-- **Two typings agree**: both fail, or both succeed with related results and record the same
pointers. -/
def Agree (R : α → β → Prop) (t : Typing α) (u : Typing β) : Prop :=
  (∃ a b A, Yields t a A ∧ Yields u b A ∧ R a b) ∨ (Fails t ∧ Fails u)

theorem Yields.gives {t : Typing α} {a : α} {A : Pointer → Prop} (h : Yields t a A) :
    Gives t a := by
  obtain ⟨refs', h, _, _⟩ := h []
  exact ⟨[], refs', h⟩

/-- A typing that succeeds from everywhere has one result. -/
theorem Yields.eq_of_gives {t : Typing α} {a b : α} {A : Pointer → Prop} (h : Yields t a A)
    (hb : Gives t b) : b = a := by
  obtain ⟨refs, refs', hb⟩ := hb
  obtain ⟨_, ha, _, _⟩ := h refs
  rw [hb] at ha
  cases ha
  rfl

theorem Yields.unique {t : Typing α} {a b : α} {A B : Pointer → Prop} (h : Yields t a A)
    (h' : Yields t b B) : a = b ∧ A = B := by
  refine ⟨h'.eq_of_gives h.gives, ?_⟩
  obtain ⟨refs, hr, _, hA⟩ := h []
  obtain ⟨refs', hr', _, hB⟩ := h' []
  rw [hr] at hr'
  cases hr'
  funext q
  have hq := (hA q).symm.trans (hB q)
  simpa using hq

theorem Fails.not_gives {t : Typing α} {a : α} (h : Fails t) (ha : Gives t a) : False := by
  obtain ⟨refs, refs', ha⟩ := ha
  obtain ⟨e, _, he⟩ := h refs
  rw [ha] at he
  cases he

section Relations

variable {R : α → β → Prop} {t : Typing α} {u : Typing β}

/-- Results of typings that agree are related. -/
theorem Agree.gives (h : Agree R t u) {a : α} {b : β} (ha : Gives t a) (hb : Gives u b) :
    R a b := by
  rcases h with ⟨a', b', A, ha', hb', hR⟩ | ⟨hf, _⟩
  · rw [ha'.eq_of_gives ha, hb'.eq_of_gives hb]
    exact hR
  · exact (hf.not_gives ha).elim

theorem Agree.mono {S : α → β → Prop} (h : Agree R t u) (hS : ∀ a b, R a b → S a b) :
    Agree S t u := by
  rcases h with ⟨a, b, A, ha, hb, hR⟩ | hf
  · exact Or.inl ⟨a, b, A, ha, hb, hS a b hR⟩
  · exact Or.inr hf

/-- A related result may be assumed to be one of the typings. -/
theorem Agree.mono_gives {S : α → β → Prop} (h : Agree R t u)
    (hS : ∀ a b, Gives t a → Gives u b → R a b → S a b) : Agree S t u := by
  rcases h with ⟨a, b, A, ha, hb, hR⟩ | hf
  · exact Or.inl ⟨a, b, A, ha, hb, hS a b ha.gives hb.gives hR⟩
  · exact Or.inr hf

theorem Agree.left (h : Agree R t u) : Agree Eq t t := by
  rcases h with ⟨a, _, A, ha, _, _⟩ | ⟨hf, _⟩
  · exact Or.inl ⟨a, a, A, ha, ha, rfl⟩
  · exact Or.inr ⟨hf, hf⟩

theorem Agree.right (h : Agree R t u) : Agree Eq u u := by
  rcases h with ⟨_, b, A, _, hb, _⟩ | ⟨_, hf⟩
  · exact Or.inl ⟨b, b, A, hb, hb, rfl⟩
  · exact Or.inr ⟨hf, hf⟩

theorem Agree.comp {S : β → γ → Prop} {w : Typing γ} (h : Agree R t u) (h' : Agree S u w) :
    Agree (fun a c => ∃ b, R a b ∧ S b c) t w := by
  rcases h with ⟨a, b, A, ha, hb, hR⟩ | ⟨hf, hf'⟩
  · rcases h' with ⟨b', c, B, hb', hc, hS⟩ | ⟨hg, _⟩
    · obtain ⟨rfl, rfl⟩ := hb.unique hb'
      exact Or.inl ⟨a, c, A, ha, hc, b, hR, hS⟩
    · exact (hg.not_gives hb.gives).elim
  · rcases h' with ⟨b', c, B, hb', hc, hS⟩ | ⟨_, hg⟩
    · exact (hf'.not_gives hb'.gives).elim
    · exact Or.inr ⟨hf, hg⟩

theorem Agree.symm (h : Agree R t u) : Agree (fun b a => R a b) u t := by
  rcases h with ⟨a, b, A, ha, hb, hR⟩ | ⟨hf, hf'⟩
  · exact Or.inl ⟨b, a, A, hb, ha, hR⟩
  · exact Or.inr ⟨hf', hf⟩

/-- One of two typings may be replaced by a typing with the same results. -/
theorem Agree.eq_comp {s : Typing α} (hs : Agree Eq s t) (h : Agree R t u) : Agree R s u := by
  refine (hs.comp h).mono ?_
  rintro _ c ⟨_, rfl, hR⟩
  exact hR

theorem Agree.comp_eq {w : Typing β} (h : Agree R t u) (hw : Agree Eq u w) : Agree R t w := by
  refine (h.comp hw).mono ?_
  rintro a _ ⟨_, hR, rfl⟩
  exact hR

/-- Typings with the same results give the same. -/
theorem Agree.gives_right {t u : Typing α} (h : Agree Eq t u) {a : α} (ha : Gives t a) :
    Gives u a := by
  rcases h with ⟨b, _, A, hb, hb', rfl⟩ | ⟨hf, _⟩
  · rw [hb.eq_of_gives ha]
    exact hb'.gives
  · exact (hf.not_gives ha).elim

/-- Runs of typings that agree record the same references. -/
theorem Agree.run (h : Agree R t u) :
    (∃ a b refs, t.run = (.ok a, refs) ∧ u.run = (.ok b, refs) ∧ R a b) ∨
    ∃ e e' refs refs', t.run = (.error e, refs) ∧ u.run = (.error e', refs') := by
  rcases h with ⟨a, b, A, ha, hb, hR⟩ | ⟨hf, hf'⟩
  · obtain ⟨refs, ht, hs, hA⟩ := ha []
    obtain ⟨refs', hu, hs', hA'⟩ := hb []
    have heq : refs = refs' :=
      (hs .nil).ext (hs' .nil) fun q => (hA q).trans (hA' q).symm
    rw [← heq] at hu
    exact Or.inl ⟨a, b, refs, ht, hu, hR⟩
  · obtain ⟨e, refs, ht⟩ := hf []
    obtain ⟨e', refs', hu⟩ := hf' []
    exact Or.inr ⟨e, e', refs, refs', ht, hu⟩

end Relations

/-! ## 2. Steps -/

theorem agree_pure {R : α → β → Prop} {a : α} {b : β} (h : R a b) :
    Agree R (pure a : Typing α) (pure b : Typing β) :=
  Or.inl ⟨a, b, fun _ => False, fun refs => ⟨refs, rfl, id, by simp⟩,
    fun refs => ⟨refs, rfl, id, by simp⟩, h⟩

theorem fails_throw {e : Fault} : Fails (throw e : Typing α) := fun refs => ⟨e, refs, rfl⟩

theorem agree_throw {R : α → β → Prop} {e e' : Fault} :
    Agree R (throw e : Typing α) (throw e' : Typing β) :=
  Or.inr ⟨fails_throw, fails_throw⟩

theorem Yields.bind {t : Typing α} {f : α → Typing β} {a : α} {b : β} {A B : Pointer → Prop}
    (h : Yields t a A) (hf : Yields (f a) b B) : Yields (t >>= f) b fun q => A q ∨ B q := by
  intro refs
  obtain ⟨mid, ht, hs, hA⟩ := h refs
  obtain ⟨refs', hfa, hs', hB⟩ := hf mid
  refine ⟨refs', ?_, hs' ∘ hs, ?_⟩
  · rw [ExceptT.run_bind]
    simp only [Bind.bind, StateT.bind, ht]
    exact hfa
  · intro q
    rw [hB, hA, or_assoc]

theorem Yields.bind_fails {t : Typing α} {f : α → Typing β} {a : α} {A : Pointer → Prop}
    (h : Yields t a A) (hf : Fails (f a)) : Fails (t >>= f) := by
  intro refs
  obtain ⟨mid, ht, _, _⟩ := h refs
  obtain ⟨e, refs', hfa⟩ := hf mid
  refine ⟨e, refs', ?_⟩
  rw [ExceptT.run_bind]
  simp only [Bind.bind, StateT.bind, ht]
  exact hfa

theorem Fails.bind {t : Typing α} {f : α → Typing β} (h : Fails t) : Fails (t >>= f) := by
  intro refs
  obtain ⟨e, refs', ht⟩ := h refs
  refine ⟨e, refs', ?_⟩
  rw [ExceptT.run_bind]
  simp only [Bind.bind, StateT.bind, ht]
  rfl

theorem Agree.bind {R : α → β → Prop} {S : γ → δ → Prop} {t : Typing α} {u : Typing β}
    {f : α → Typing γ} {g : β → Typing δ} (h : Agree R t u)
    (hfg : ∀ a b, R a b → Agree S (f a) (g b)) : Agree S (t >>= f) (u >>= g) := by
  rcases h with ⟨a, b, A, ha, hb, hR⟩ | ⟨ht, hu⟩
  · rcases hfg a b hR with ⟨c, d, B, hc, hd, hS⟩ | ⟨hf, hg⟩
    · exact Or.inl ⟨c, d, _, ha.bind hc, hb.bind hd, hS⟩
    · exact Or.inr ⟨ha.bind_fails hf, hb.bind_fails hg⟩
  · exact Or.inr ⟨ht.bind, hu.bind⟩

/-- Two steps after the same first step. -/
theorem Agree.bind_eq {S : γ → δ → Prop} {t u : Typing α} {f : α → Typing γ} {g : α → Typing δ}
    (h : Agree Eq t u) (hfg : ∀ a, Agree S (f a) (g a)) : Agree S (t >>= f) (u >>= g) :=
  h.bind fun a _ heq => heq ▸ hfg a

theorem agree_lift (r : Except Fault α) : Agree Eq (lift r) (lift r) := by
  cases r with
  | ok a => exact agree_pure rfl
  | error e => exact agree_throw

theorem agree_reference {env env' : Environment} (h : env.resolver = env'.resolver)
    (target : String) (location : Pointer) :
    Agree Eq (reference env target location) (reference env' target location) := by
  unfold reference
  rw [h]
  refine (agree_lift _).bind_eq fun p => Agree.bind_eq ?_ fun _ => agree_pure rfl
  refine Or.inl ⟨(), (), fun q => q = p, ?_, ?_, rfl⟩
  all_goals
    intro refs
    refine ⟨Pointer.insert p refs, rfl, Pointer.ascending_insert, fun q => ?_⟩
    rw [Pointer.mem_insert, or_comm]

theorem agree_within {R : α → β → Prop} {env env' : Environment} {location : Pointer}
    {inner : Nat → Typing α} {inner' : Nat → Typing β} {depth : Nat}
    (hi : ∀ depth, Agree R (inner depth) (inner' depth))
    (h : env.config.maxDepth = env'.config.maxDepth) :
    Agree R (within env depth location inner) (within env' depth location inner') := by
  unfold within
  rw [h]
  split
  · exact agree_throw
  · exact hi (depth + 1)

/-! ## 3. Lists -/

theorem Agree.mapM {R : α → β → Prop} {S : γ → δ → Prop} {f : α → Typing γ} {g : β → Typing δ}
    {as : List α} {bs : List β} (h : List.Forall₂ R as bs)
    (hfg : ∀ a b, R a b → Agree S (f a) (g b)) :
    Agree (List.Forall₂ S) (as.mapM f) (bs.mapM g) := by
  induction h with
  | nil => exact agree_pure .nil
  | cons hR _ ih =>
    rw [List.mapM_cons, List.mapM_cons]
    refine (hfg _ _ hR).bind fun c d hS => ih.bind fun cs ds hrest => ?_
    exact agree_pure (.cons hS hrest)

/-- The same list, item by item. -/
theorem agree_mapM {S : γ → δ → Prop} {f : α → Typing γ} {g : α → Typing δ} {as : List α}
    (hfg : ∀ a ∈ as, Agree S (f a) (g a)) : Agree (List.Forall₂ S) (as.mapM f) (as.mapM g) := by
  induction as with
  | nil => exact agree_pure .nil
  | cons a rest ih =>
    rw [List.mapM_cons, List.mapM_cons]
    refine (hfg a List.mem_cons_self).bind fun c d hS => ?_
    refine (ih fun a ha => hfg a (List.mem_cons_of_mem _ ha)).bind fun cs ds hrest => ?_
    exact agree_pure (.cons hS hrest)

theorem agree_mapM_eq {f g : α → Typing γ} {as : List α}
    (hfg : ∀ a ∈ as, Agree Eq (f a) (g a)) : Agree Eq (as.mapM f) (as.mapM g) :=
  (agree_mapM hfg).mono fun _ _ h => List.forall₂_eq_eq_eq ▸ h

/-- Typings that agree one by one agree when they are run one after the other. -/
theorem agree_mapM_id {ts us : List (Typing α)} (h : List.Forall₂ (Agree Eq) ts us) :
    Agree Eq (ts.mapM id) (us.mapM id) :=
  (Agree.mapM h fun _ _ htu => htu).mono fun _ _ h => List.forall₂_eq_eq_eq ▸ h

/-! ## 4. Other orders -/

theorem Yields.congr {t : Typing α} {a : α} {A B : Pointer → Prop} (h : Yields t a A)
    (hAB : ∀ q, A q ↔ B q) : Yields t a B := by
  intro refs
  obtain ⟨refs', ht, hs, hA⟩ := h refs
  exact ⟨refs', ht, hs, fun q => by rw [hA, hAB]⟩

/-- Two steps that do not depend on each other may be exchanged. -/
theorem agree_exchange {R : γ → δ → Prop} {t : Typing α} {u : Typing β}
    {f : α → β → Typing γ} {g : β → α → Typing δ} (ht : Agree Eq t t) (hu : Agree Eq u u)
    (hfg : ∀ a b, Agree R (f a b) (g b a)) :
    Agree R (t >>= fun a => u >>= f a) (u >>= fun b => t >>= g b) := by
  rcases ht with ⟨a, _, A, ha, _, _⟩ | ⟨ht, _⟩
  · rcases hu with ⟨b, _, B, hb, _, _⟩ | ⟨hu, _⟩
    · rcases hfg a b with ⟨c, d, C, hc, hd, hR⟩ | ⟨hc, hd⟩
      · refine Or.inl ⟨c, d, _, ha.bind (hb.bind hc), (hb.bind (ha.bind hd)).congr ?_, hR⟩
        exact fun q => or_left_comm
      · exact Or.inr ⟨ha.bind_fails (hb.bind_fails hc), hb.bind_fails (ha.bind_fails hd)⟩
    · exact Or.inr ⟨ha.bind_fails hu.bind, hu.bind⟩
  · rcases hu with ⟨b, _, B, hb, _, _⟩ | ⟨hu, _⟩
    · exact Or.inr ⟨ht.bind, hb.bind_fails ht.bind⟩
    · exact Or.inr ⟨ht.bind, hu.bind⟩

/-- The items of a list may be typed in any order. -/
theorem agree_mapM_perm {f : α → Typing β} {as bs : List α} (h : as.Perm bs)
    (hf : ∀ a ∈ as, Agree Eq (f a) (f a)) : Agree List.Perm (as.mapM f) (bs.mapM f) := by
  induction h with
  | nil => exact agree_pure .nil
  | cons a _ ih =>
    rw [List.mapM_cons, List.mapM_cons]
    refine (hf a List.mem_cons_self).bind_eq fun x => ?_
    refine (ih fun a ha => hf a (List.mem_cons_of_mem _ ha)).bind fun xs ys hxs => ?_
    exact agree_pure (hxs.cons x)
  | swap a b rest =>
    rw [List.mapM_cons, List.mapM_cons, List.mapM_cons, List.mapM_cons]
    have ha := hf a (by simp)
    have hb := hf b (by simp)
    have hrest : Agree Eq (rest.mapM f) (rest.mapM f) :=
      agree_mapM_eq fun a ha => hf a (by simp [ha])
    simp only [bind_assoc, pure_bind]
    refine agree_exchange hb ha fun y x => ?_
    exact hrest.bind_eq fun xs => agree_pure (.swap x y xs)
  | trans hab _ ih ih' =>
    refine ((ih hf).comp (ih' fun a ha => hf a (hab.mem_iff.mpr ha))).mono ?_
    rintro xs zs ⟨ys, hxy, hyz⟩
    exact hxy.trans hyz

/-- Two lists of results that go with a list of parts, item by item. -/
inductive InStep (R : α → β → γ → Prop) : List α → List β → List γ → Prop
  | nil : InStep R [] [] []
  | cons {a : α} {b : β} {c : γ} {as : List α} {bs : List β} {cs : List γ} (h : R a b c)
      (rest : InStep R as bs cs) : InStep R (a :: as) (b :: bs) (c :: cs)

/-- Two lists of results that go with a list of parts, each in an order of its own. -/
def Rearranged (R : α → β → γ → Prop) (parts : List α) (bs : List β) (cs : List γ) : Prop :=
  ∃ bs' cs', bs.Perm bs' ∧ cs.Perm cs' ∧ InStep R parts bs' cs'

theorem agree_inStep {R : α → β → γ → Prop} {f : α → Typing β} {g : α → Typing γ} {as : List α}
    (hfg : ∀ a ∈ as, Agree (R a) (f a) (g a)) : Agree (InStep R as) (as.mapM f) (as.mapM g) := by
  induction as with
  | nil => exact agree_pure .nil
  | cons a rest ih =>
    rw [List.mapM_cons, List.mapM_cons]
    refine (hfg a List.mem_cons_self).bind fun x y hR => ?_
    refine (ih fun a ha => hfg a (List.mem_cons_of_mem _ ha)).bind fun xs ys hrest => ?_
    exact agree_pure (.cons hR hrest)

/-- **Parts that are typed in two orders give rearranged results.** -/
theorem agree_rearranged {R : α → β → γ → Prop} {f : α → Typing β} {g : α → Typing γ}
    {parts as bs : List α} (ha : as.Perm parts) (hb : bs.Perm parts)
    (hfg : ∀ a ∈ parts, Agree (R a) (f a) (g a)) :
    Agree (Rearranged R parts) (as.mapM f) (bs.mapM g) := by
  have hf : Agree List.Perm (as.mapM f) (parts.mapM f) :=
    agree_mapM_perm ha fun a h => (hfg a (ha.mem_iff.mp h)).left
  have hg : Agree List.Perm (parts.mapM g) (bs.mapM g) :=
    agree_mapM_perm hb.symm fun a h => (hfg a h).right
  refine ((hf.comp (agree_inStep hfg)).comp hg).mono ?_
  rintro xs ys ⟨ys', ⟨xs', hx, hstep⟩, hy⟩
  exact ⟨xs', ys', hx, hy.symm, hstep⟩

section InStep

variable {R : α → β → γ → Prop} {as : List α} {bs : List β} {cs : List γ}

theorem InStep.mono {S : α → β → γ → Prop} (h : InStep R as bs cs)
    (hS : ∀ a ∈ as, ∀ b c, R a b c → S a b c) : InStep S as bs cs := by
  induction h with
  | nil => exact .nil
  | cons hR _ ih =>
    exact .cons (hS _ List.mem_cons_self _ _ hR) (ih fun a ha => hS a (List.mem_cons_of_mem _ ha))

theorem InStep.map {β' γ' : Type} {S : α → β' → γ' → Prop} {f : β → β'} {g : γ → γ'}
    (h : InStep R as bs cs) (hS : ∀ a b c, R a b c → S a (f b) (g c)) :
    InStep S as (bs.map f) (cs.map g) := by
  induction h with
  | nil => exact .nil
  | cons hR _ ih => exact .cons (hS _ _ _ hR) ih

/-- Parts and results may be left out together. -/
theorem InStep.filter {p : α → Bool} {q : β → Bool} {r : γ → Bool} (h : InStep R as bs cs)
    (hq : ∀ a b c, R a b c → q b = p a) (hr : ∀ a b c, R a b c → r c = p a) :
    InStep R (as.filter p) (bs.filter q) (cs.filter r) := by
  induction h with
  | nil => exact .nil
  | cons hR _ ih =>
    rw [List.filter_cons, List.filter_cons, List.filter_cons, hq _ _ _ hR, hr _ _ _ hR]
    split
    · exact .cons hR ih
    · exact ih

theorem Rearranged.filter {p : α → Bool} {q : β → Bool} {r : γ → Bool}
    (h : Rearranged R as bs cs) (hq : ∀ a b c, R a b c → q b = p a)
    (hr : ∀ a b c, R a b c → r c = p a) :
    Rearranged R (as.filter p) (bs.filter q) (cs.filter r) := by
  obtain ⟨bs', cs', hb, hc, hstep⟩ := h
  exact ⟨_, _, hb.filter q, hc.filter r, hstep.filter hq hr⟩

/-- Every result on either side goes with a part and with a result on the other. -/
theorem InStep.exists_of_mem_left (h : InStep R as bs cs) :
    ∀ b ∈ bs, ∃ a ∈ as, ∃ c ∈ cs, R a b c := by
  induction h with
  | nil => exact fun b hb => absurd hb List.not_mem_nil
  | cons hR _ ih =>
    intro b hb
    rcases List.mem_cons.mp hb with rfl | hb
    · exact ⟨_, List.mem_cons_self, _, List.mem_cons_self, hR⟩
    · obtain ⟨a, ha, c, hc, h⟩ := ih b hb
      exact ⟨a, List.mem_cons_of_mem _ ha, c, List.mem_cons_of_mem _ hc, h⟩

theorem InStep.exists_of_mem_right (h : InStep R as bs cs) :
    ∀ c ∈ cs, ∃ a ∈ as, ∃ b ∈ bs, R a b c := by
  induction h with
  | nil => exact fun c hc => absurd hc List.not_mem_nil
  | cons hR _ ih =>
    intro c hc
    rcases List.mem_cons.mp hc with rfl | hc
    · exact ⟨_, List.mem_cons_self, _, List.mem_cons_self, hR⟩
    · obtain ⟨a, ha, b, hb, h⟩ := ih c hc
      exact ⟨a, List.mem_cons_of_mem _ ha, b, List.mem_cons_of_mem _ hb, h⟩

theorem Rearranged.exists_of_mem_left (h : Rearranged R as bs cs) :
    ∀ b ∈ bs, ∃ a ∈ as, ∃ c ∈ cs, R a b c := by
  obtain ⟨bs', cs', hb, hc, hstep⟩ := h
  intro b hmem
  obtain ⟨a, ha, c, hmem', hR⟩ := hstep.exists_of_mem_left b (hb.mem_iff.mp hmem)
  exact ⟨a, ha, c, hc.mem_iff.mpr hmem', hR⟩

theorem Rearranged.exists_of_mem_right (h : Rearranged R as bs cs) :
    ∀ c ∈ cs, ∃ a ∈ as, ∃ b ∈ bs, R a b c := by
  obtain ⟨bs', cs', hb, hc, hstep⟩ := h
  intro c hmem
  obtain ⟨a, ha, b, hmem', hR⟩ := hstep.exists_of_mem_right c (hc.mem_iff.mp hmem)
  exact ⟨a, ha, b, hb.mem_iff.mpr hmem', hR⟩

theorem Rearranged.map {β' γ' : Type} {S : α → β' → γ' → Prop} {f : β → β'} {g : γ → γ'}
    (h : Rearranged R as bs cs) (hS : ∀ a b c, R a b c → S a (f b) (g c)) :
    Rearranged S as (bs.map f) (cs.map g) := by
  obtain ⟨bs', cs', hb, hc, hstep⟩ := h
  exact ⟨_, _, hb.map f, hc.map g, hstep.map hS⟩

/-- What is equal in related results. -/
theorem InStep.map_eq {δ : Type} {f : β → δ} {g : γ → δ} (h : InStep R as bs cs)
    (hfg : ∀ a b c, R a b c → f b = g c) : bs.map f = cs.map g := by
  induction h with
  | nil => rfl
  | cons hR _ ih => rw [List.map_cons, List.map_cons, hfg _ _ _ hR, ih]

/-- Results that are equal are rearranged when the lists are in two orders. -/
theorem InStep.eq_of_eq {bs' : List β} (h : InStep (fun _ => Eq) as bs bs') : bs = bs' := by
  have heq := h.map_eq (f := id) (g := id) fun _ _ _ h => h
  rwa [List.map_id, List.map_id] at heq

theorem Rearranged.perm {bs' : List β} (h : Rearranged (fun _ => Eq) as bs bs') :
    bs.Perm bs' := by
  obtain ⟨cs, cs', hb, hc, hstep⟩ := h
  rw [hstep.eq_of_eq] at hb
  exact hb.trans hc.symm

end InStep

end ApiTypes.Typing
