/-
# Typings that run in parallel

Two descriptions that differ only where the types do not look are typed by runs that never part:
they record the same references, stop at the same fault, and give results that are related.
Unlike agreement (`Typing.Agree`), this keeps apart the faults that can end a run.

* `Typing.Parallel R t u`: from any pointers on, `t` and `u` run alike, with results in `R`.
* `Typing.Parallel.bind`, `Typing.Parallel.mapM`, … : one lemma for each kind of step.
-/
import ApiTypes.Typing.Basic
import Mathlib.Data.List.Forall2

namespace ApiTypes.Typing

variable {α β γ δ : Type} {R : α → β → Prop} {S : γ → δ → Prop}

/-- **Two typings run in parallel**: from any pointers on, both fail with one fault or both
succeed with related results, and they record the same pointers. -/
def Parallel (R : α → β → Prop) (t : Typing α) (u : Typing β) : Prop :=
  ∀ refs, (∃ e refs', ExceptT.run t refs = (.error e, refs') ∧
      ExceptT.run u refs = (.error e, refs')) ∨
    ∃ a b refs', ExceptT.run t refs = (.ok a, refs') ∧
      ExceptT.run u refs = (.ok b, refs') ∧ R a b

theorem parallel_pure {a : α} {b : β} (h : R a b) :
    Parallel R (pure a : Typing α) (pure b : Typing β) :=
  fun refs => Or.inr ⟨a, b, refs, rfl, rfl, h⟩

theorem parallel_throw (e : Fault) : Parallel R (throw e : Typing α) (throw e : Typing β) :=
  fun refs => Or.inl ⟨e, refs, rfl, rfl⟩

/-- A typing runs in parallel to itself. -/
theorem Parallel.refl (t : Typing α) : Parallel Eq t t := by
  intro refs
  cases ht : ExceptT.run t refs with
  | mk result refs' =>
    cases result with
    | error e => exact Or.inl ⟨e, refs', rfl, rfl⟩
    | ok a => exact Or.inr ⟨a, a, refs', rfl, rfl, rfl⟩

/-- Typings with one and the same result at every start are one. -/
theorem Parallel.eq {t u : Typing α} (h : Parallel Eq t u) : t = u := by
  funext refs
  rcases h refs with ⟨e, refs', ht, hu⟩ | ⟨a, b, refs', ht, hu, rfl⟩
  · exact ht.trans hu.symm
  · exact ht.trans hu.symm

theorem Parallel.mono {R' : α → β → Prop} {t : Typing α} {u : Typing β} (h : Parallel R t u)
    (hR : ∀ a b, R a b → R' a b) : Parallel R' t u := by
  intro refs
  rcases h refs with hfail | ⟨a, b, refs', ht, hu, hab⟩
  · exact Or.inl hfail
  · exact Or.inr ⟨a, b, refs', ht, hu, hR a b hab⟩

/-- Parallel steps after parallel steps. -/
theorem Parallel.bind {t : Typing α} {u : Typing β} {f : α → Typing γ} {g : β → Typing δ}
    (h : Parallel R t u) (hfg : ∀ a b, R a b → Parallel S (f a) (g b)) :
    Parallel S (t >>= f) (u >>= g) := by
  intro refs
  rw [ExceptT.run_bind, ExceptT.run_bind]
  rcases h refs with ⟨e, refs', ht, hu⟩ | ⟨a, b, mid, ht, hu, hab⟩
  · refine Or.inl ⟨e, refs', ?_, ?_⟩
    · simp only [Bind.bind, StateT.bind, ht]
      rfl
    · simp only [Bind.bind, StateT.bind, hu]
      rfl
  · simp only [Bind.bind, StateT.bind, ht, hu]
    exact hfg a b hab mid

/-- Environments that allow one depth go down in parallel. -/
theorem Parallel.withinBoth {env env' : Environment} {depth : Nat} {location : Pointer}
    {inner : Nat → Typing α} {inner' : Nat → Typing β}
    (hdepth : env.config.maxDepth = env'.config.maxDepth)
    (h : ∀ depth, Parallel R (inner depth) (inner' depth)) :
    Parallel R (within env depth location inner) (within env' depth location inner') := by
  unfold Typing.within
  rw [hdepth]
  split
  · exact parallel_throw _
  · exact h (depth + 1)

theorem Parallel.within {env : Environment} {depth : Nat} {location : Pointer}
    {inner : Nat → Typing α} {inner' : Nat → Typing β}
    (h : ∀ depth, Parallel R (inner depth) (inner' depth)) :
    Parallel R (within env depth location inner) (within env depth location inner') :=
  withinBoth rfl h

theorem Parallel.mapM {f : α → Typing γ} {g : β → Typing δ} {as : List α} {bs : List β}
    (h : List.Forall₂ (fun a b => Parallel S (f a) (g b)) as bs) :
    Parallel (List.Forall₂ S) (as.mapM f) (bs.mapM g) := by
  induction h with
  | nil => exact parallel_pure .nil
  | cons hab _ ih =>
    rw [List.mapM_cons, List.mapM_cons]
    refine hab.bind fun c d hcd => ih.bind fun cs ds hrest => ?_
    exact parallel_pure (.cons hcd hrest)

/-- The steps over one and the same list. -/
theorem Parallel.mapM_same {f : α → Typing γ} {g : α → Typing δ} {as : List α}
    (h : ∀ a ∈ as, Parallel S (f a) (g a)) :
    Parallel (List.Forall₂ S) (as.mapM f) (as.mapM g) :=
  Parallel.mapM (List.forall₂_same.mpr h)

/-- Typings that are parallel one by one are parallel at every position. -/
theorem Parallel.getD {a : α} {b : β} (hab : R a b) :
    ∀ {ts : List (Typing α)} {us : List (Typing β)} (i : Nat),
      List.Forall₂ (Parallel R) ts us →
      Parallel R (ts.getD i (pure a)) (us.getD i (pure b))
  | _, _, i, .nil => by
    rw [List.getD_nil, List.getD_nil]
    exact parallel_pure hab
  | _, _, 0, .cons h _ => h
  | _, _, i + 1, .cons _ hrest => by
    rw [List.getD_cons_succ, List.getD_cons_succ]
    exact getD hab i hrest

/-- What two runs in parallel give is related in both ways, if either way is. -/
theorem Parallel.both {R' : β → α → Prop} {t : Typing α} {u : Typing β} (h : Parallel R t u)
    (h' : Parallel R' u t) : Parallel (fun a b => R a b ∧ R' b a) t u := by
  intro refs
  rcases h refs with hfail | ⟨a, b, refs', ht, hu, hab⟩
  · exact Or.inl hfail
  · rcases h' refs with ⟨e, _, hu', _⟩ | ⟨b', a', _, hu', ht', hba⟩
    · rw [hu] at hu'
      cases hu'
    · rw [hu] at hu'
      rw [ht] at ht'
      cases hu'
      cases ht'
      exact Or.inr ⟨a, b, refs', ht, hu, hab, hba⟩

/-- Whole runs in parallel. -/
theorem Parallel.run {t : Typing α} {u : Typing β} (h : Parallel R t u) :
    (∃ e refs, t.run = (.error e, refs) ∧ u.run = (.error e, refs)) ∨
      ∃ a b refs, t.run = (.ok a, refs) ∧ u.run = (.ok b, refs) ∧ R a b :=
  h []

end ApiTypes.Typing
