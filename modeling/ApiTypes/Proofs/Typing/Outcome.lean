/-
# What typing gives

A result under way is a function of the pointers recorded so far.  Most of what can be said
about a result does not depend on them, so `Typing.Gives` forgets them: a result is given when
some run succeeds with it.  The lemmas take a given result apart along the steps that made it,
which is how the later modules follow the typing functions without opening the steps again.

* `Typing.Gives t a`: typing `t` succeeds with `a` from some pointers on.
* `Typing.Gives.of_bind`, `of_mapM`, `of_reference`, … : one lemma for each kind of step.
* `Typing.Gives.of_operation` : what a typed operation says about where it stands.
* `Typing.Ensures Q t`: whatever typing `t` gives has the property `Q`; again one lemma for each
  kind of step, for properties that are carried forward through the steps.
-/
import ApiTypes.Typing.Operation
import Mathlib.Data.List.Forall2

namespace ApiTypes.Typing

variable {α β : Type}

/-! ## 1. Results -/

/-- A run that starts with some pointers succeeds with a result. -/
def Gives (t : Typing α) (a : α) : Prop := ∃ refs refs', ExceptT.run t refs = (.ok a, refs')

/-- A run from the start that succeeds gives its result. -/
theorem gives_of_run {t : Typing α} {a : α} {refs : List Pointer} (h : t.run = (.ok a, refs)) :
    Gives t a :=
  ⟨[], refs, h⟩

/-- What passes a check has come out. -/
theorem exists_of_any {ε : Type} {r : Except ε α} {p : α → Bool}
    (h : r.toOption.any p = true) : ∃ a, r = .ok a ∧ p a = true := by
  cases r with
  | error e => cases h
  | ok a => exact ⟨a, rfl, h⟩

/-- A result that passes a check is given. -/
theorem exists_gives_of_any {t : Typing α} {p : α → Bool}
    (h : t.run.1.toOption.any p = true) : ∃ a, Gives t a ∧ p a = true := by
  obtain ⟨a, ha, hp⟩ := exists_of_any h
  have hrun : t.run = (.ok a, t.run.2) := Prod.ext ha rfl
  exact ⟨a, gives_of_run hrun, hp⟩

theorem Gives.of_pure {a b : α} (h : Gives (pure a : Typing α) b) : b = a := by
  obtain ⟨_, _, h⟩ := h
  cases h
  rfl

theorem Gives.of_throw {e : Fault} {a : α} (h : Gives (throw e : Typing α) a) : False := by
  obtain ⟨_, _, h⟩ := h
  cases h

/-- A run of two steps that succeeds is a run of the first, and one of the second from there. -/
theorem run_bind {t : Typing α} {f : α → Typing β} {b : β} {refs refs' : List Pointer}
    (h : ExceptT.run (t >>= f) refs = (.ok b, refs')) :
    ∃ a mid, ExceptT.run t refs = (.ok a, mid) ∧ ExceptT.run (f a) mid = (.ok b, refs') := by
  rw [ExceptT.run_bind] at h
  cases ht : ExceptT.run t refs with
  | mk result mid =>
    cases result with
    | error e =>
      simp only [bind, StateT.bind, ht] at h
      cases h
    | ok a =>
      simp only [bind, StateT.bind, ht] at h
      exact ⟨a, mid, rfl, h⟩

/-- A result of two steps comes from a result of the first. -/
theorem Gives.of_bind {t : Typing α} {f : α → Typing β} {b : β} (h : Gives (t >>= f) b) :
    ∃ a, Gives t a ∧ Gives (f a) b := by
  obtain ⟨refs, refs', h⟩ := h
  obtain ⟨a, mid, ht, hf⟩ := run_bind h
  exact ⟨a, ⟨refs, mid, ht⟩, ⟨mid, refs', hf⟩⟩

theorem Gives.of_lift {r : Except Fault α} {a : α} (h : Gives (lift r) a) : r = .ok a := by
  cases r with
  | ok b => rw [h.of_pure]
  | error e => exact h.of_throw.elim

/-- The pointer that a reference leads to is the one that it spells. -/
theorem Gives.of_reference {env : Environment} {target : String} {location p : Pointer}
    (h : Gives (reference env target location) p) :
    env.resolver.canonical target location = .ok p := by
  obtain ⟨q, hq, h⟩ := h.of_bind
  obtain ⟨_, _, h⟩ := h.of_bind
  rw [h.of_pure]
  exact hq.of_lift

theorem Gives.of_within {env : Environment} {depth : Nat} {location : Pointer}
    {inner : Nat → Typing α} {a : α} (h : Gives (within env depth location inner) a) :
    Gives (inner (depth + 1)) a := by
  unfold within at h
  split at h
  · exact h.of_throw.elim
  · exact h

/-- A list of results is made of a result for each item. -/
theorem Gives.of_mapM {f : α → Typing β} : ∀ {as : List α} {bs : List β}, Gives (as.mapM f) bs →
    List.Forall₂ (fun a b => Gives (f a) b) as bs
  | [], _, h => by
    rw [List.mapM_nil] at h
    rw [h.of_pure]
    exact .nil
  | a :: as, _, h => by
    rw [List.mapM_cons] at h
    obtain ⟨b, hb, h⟩ := h.of_bind
    obtain ⟨bs, hbs, h⟩ := h.of_bind
    rw [h.of_pure]
    exact .cons hb (of_mapM hbs)

/-- Alternatives are typed in their order, and make a union. -/
theorem Gives.exists_arranged {env : Environment} {d : Option Discriminator}
    {members : List Schema} {variants : List (Typing TypeExpr)} {es : List TypeExpr}
    (h : Gives (alternatives env d members variants) es) (hne : members ≠ []) :
    ∃ vs, es = [.unionOf vs] ∧
      List.Forall₂ (fun step e => Gives (arrange env.config d variants step) e)
        (Discriminator.memberOrder env.resolver.self members d) vs := by
  unfold alternatives at h
  rw [if_neg (by simpa using hne)] at h
  obtain ⟨vs, hvs, h⟩ := h.of_bind
  exact ⟨vs, h.of_pure, hvs.of_mapM⟩

/-! ## 2. Properties of results -/

/-- Whatever a typing gives has a property. -/
def Ensures (Q : α → Prop) (t : Typing α) : Prop := ∀ a, Gives t a → Q a

section Ensures

variable {Q : α → Prop} {R : β → Prop} {t : Typing α}

/-- What is given may be remembered. -/
theorem Ensures.gives (h : Ensures Q t) : Ensures (fun a => Gives t a ∧ Q a) t :=
  fun a ha => ⟨ha, h a ha⟩

theorem ensures_gives (t : Typing α) : Ensures (Gives t) t := fun _ ha => ha

theorem ensures_pure {a : α} (h : Q a) : Ensures Q (pure a : Typing α) := by
  intro b hb
  rw [hb.of_pure]
  exact h

theorem Ensures.bind {f : α → Typing β} (h : Ensures Q t) (hf : ∀ a, Q a → Ensures R (f a)) :
    Ensures R (t >>= f) := by
  intro b hb
  obtain ⟨a, ha, hb⟩ := hb.of_bind
  exact hf a (h a ha) b hb

theorem ensures_lift {r : Except Fault α} (h : ∀ a, r = .ok a → Q a) : Ensures Q (lift r) :=
  fun a ha => h a ha.of_lift

theorem Ensures.within {env : Environment} {depth : Nat} {location : Pointer}
    {inner : Nat → Typing α} (h : ∀ depth, Ensures Q (inner depth)) :
    Ensures Q (within env depth location inner) :=
  fun a ha => h (depth + 1) a ha.of_within

theorem Ensures.mapM {f : α → Typing β} {as : List α} (h : ∀ a ∈ as, Ensures R (f a)) :
    Ensures (fun bs => ∀ b ∈ bs, R b) (as.mapM f) := by
  intro bs hbs b hb
  have hsteps := hbs.of_mapM
  clear hbs
  induction hsteps with
  | nil => cases hb
  | @cons a c _ _ hstep _ ih =>
    rcases List.mem_cons.mp hb with rfl | hb
    · exact h a List.mem_cons_self b hstep
    · exact ih (fun a ha => h a (List.mem_cons_of_mem _ ha)) hb

end Ensures

/-! ## 3. Operations -/

/-- An operation is typed to its site, its tags and what comes of its parameters and parts. -/
theorem Gives.eq_operation {site : Site} {method : Method} {o : Operation} {t : TypedOperation}
    (h : Gives (operation env site method o) t) : ∃ es pathParams doc type,
      Gives (effectiveParameters env site (site.pointer.child method.name) o) es ∧
        t = {
          name := operationName site method o
          location := site.pointer.child method.name
          kind := site.kind, method, path := site.path
          tags := o.tags, pathParams
          headerParams := namesIn .header es, cookieParams := namesIn .cookie es, doc, type } := by
  obtain ⟨es, hes, h⟩ := h.of_bind
  obtain ⟨_, _, h⟩ := h.of_bind
  obtain ⟨_, _, h⟩ := h.of_bind
  obtain ⟨_, _, h⟩ := h.of_bind
  obtain ⟨_, _, h⟩ := h.of_bind
  exact ⟨es, _, _, _, hes, h.of_pure⟩

/-- What the operation of a method is typed to, besides its parts. -/
theorem Gives.of_operation {site : Site} {method : Method} {o : Operation} {t : TypedOperation}
    (h : Gives (operation env site method o) t) :
    t.name = operationName site method o ∧ t.location = site.pointer.child method.name ∧
      t.kind = site.kind ∧ t.method = method ∧ t.path = site.path := by
  obtain ⟨_, _, _, _, _, rfl⟩ := h.eq_operation
  exact ⟨rfl, rfl, rfl, rfl, rfl⟩

/-- A typed operation keeps its tags, and the names of the headers and cookies among its
parameters. -/
theorem Gives.exists_parameters {site : Site} {method : Method} {o : Operation}
    {t : TypedOperation} (h : Gives (operation env site method o) t) :
    t.tags = o.tags ∧
      ∃ es, Gives (effectiveParameters env site (site.pointer.child method.name) o) es ∧
        t.headerParams = namesIn .header es ∧ t.cookieParams = namesIn .cookie es := by
  obtain ⟨es, _, _, _, hes, rfl⟩ := h.eq_operation
  exact ⟨rfl, es, hes, rfl, rfl⟩

end ApiTypes.Typing
