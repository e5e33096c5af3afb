/-
# Where the typing of a document stops

The entries of the paths and of the webhooks are typed one after the other, and their operations
are registered on the way.  So a document stops at a place in one of its path items or of its
components, or at an operation whose name is taken by one of an earlier entry.  Entries that are
typed in the end stop elsewhere than those that are typed on the way (`Typing.collected`), which is
why the registry is followed here from entry to entry.

* `Typing.Clash D`: the fault of two operations of one name, both in `D`.
* `Typing.stops_routes` is the step from entry to entry, with the invariant that what is registered
  is in `D`.
* `Document.placed_of_typed` is the statement.
-/
import ApiTypes.Proofs.Document.PathItems
import ApiTypes.Proofs.Document.Registry
import ApiTypes.Proofs.Typing.OperationFaults

namespace ApiTypes

namespace Typing

variable {env : Environment} {At : Places}

/-! ## 1. Entries -/

/-- The reference of an entry is known in its place, and the path item that the entry stands for
is placed. -/
structure PlacedEntry (env : Environment) (At : Places) (kind : RouteKind) (name : String)
    (part : OrRef PathItem) : Prop where
  ref : ∀ target, part.pathTarget? = some target → At (kind.place name) (some target)
  item : ∀ q item, Gives (itemOf env (kind.place name) part) (q, item) → item.Placed env At q

theorem stops_entry (hchains : env.Chains At) {kind : RouteKind} {name : String}
    {part : OrRef PathItem} (h : PlacedEntry env At kind name part) :
    Stops (Fault.Placed At) (entry env kind name part) := by
  refine Stops.bind ?_ fun x hx => ?_
  · cases part with
    | ref r => exact stops_pathItemAt hchains (h.ref r.target rfl)
    | item own =>
      rw [itemOf, followed]
      split
      · rename_i target htarget
        exact stops_pathItemAt hchains (h.ref target htarget)
      · exact stops_pure _
  · obtain ⟨p, item⟩ := x
    have hitem := h.item p item hx
    exact (stops_operationsOf hchains hitem).bind fun _ _ =>
      (stops_pathRecord hchains hitem).bind_pure _

/-! ## 2. Registering on the way -/

/-- The fault of two operations that have one name in different places. -/
def Clash (D : TypedOperation → Prop) (e : Fault) : Prop :=
  ∃ known o, D known ∧ D o ∧ known.name = o.name ∧ known.location ≠ o.location ∧
    e = .duplicateOperation o.name known.location o.location

section Registry

variable {D : TypedOperation → Prop} {registry : Registry}
  {t : Typing (Member TypeExpr × List TypedOperation)}

theorem stops_registered (ht : Stops (Fault.Placed At) t)
    (hD : ∀ x, Gives t x → ∀ o ∈ x.2, D o) (hr : ∀ o ∈ registry, D o) :
    Stops (fun e => e.Placed At ∨ Clash D e) (registered t registry) := by
  refine Stops.bind (ht.mono fun _ => Or.inl) fun x hx => Stops.bind_pure ?_ _
  refine stops_lift fun e he => Or.inr ?_
  obtain ⟨known, hknown, o, ho, h⟩ := Registry.of_registered_error he
  refine ⟨known, o, ?_, hD x hx o ho, h⟩
  rcases hknown with hknown | hknown
  · exact hr known hknown
  · exact hD x hx known hknown

theorem registered_mem (hD : ∀ x, Gives t x → ∀ o ∈ x.2, D o) (hr : ∀ o ∈ registry, D o)
    {y : Member TypeExpr × Registry} (hy : Gives (registered t registry) y) : ∀ o ∈ y.2, D o := by
  obtain ⟨x, hx, hy⟩ := hy.of_bind
  obtain ⟨registry', hregistry, hy⟩ := hy.of_bind
  rw [hy.of_pure]
  intro o ho
  rcases Registry.mem_of_registered_from hregistry.of_lift ho with ho | ho
  · exact hr o ho
  · exact hD x hx o ho

section Routes

variable {α : Type} (step : String × α → Typing (Member TypeExpr × List TypedOperation))
  {type : String → Pointer → α → Registry → Typing (Member TypeExpr × Registry)} {base : Pointer}

/-- What is registered stays in `D` from entry to entry. -/
theorem routes_mem : ∀ {entries : List (String × α)} {registry : Registry},
    (∀ e ∈ entries, ∀ registry,
      type e.1 (base.child e.1) e.2 registry = registered (step e) registry) →
    (∀ e ∈ entries, ∀ x, Gives (step e) x → ∀ o ∈ x.2, D o) → (∀ o ∈ registry, D o) →
    ∀ y, Gives (routes type base entries registry) y → ∀ o ∈ y.2, D o
  | [], _, _, _, hr, y, hy => by
    rw [routes] at hy
    rw [hy.of_pure]
    exact hr
  | e :: rest, registry, htype, hD, hr, y, hy => by
    rw [routes, htype e List.mem_cons_self] at hy
    obtain ⟨x, hx, hy⟩ := hy.of_bind
    obtain ⟨z, hz, hy⟩ := hy.of_bind
    rw [hy.of_pure]
    exact routes_mem (fun e he => htype e (List.mem_cons_of_mem _ he))
      (fun e he => hD e (List.mem_cons_of_mem _ he))
      (registered_mem (hD e List.mem_cons_self) hr hx) z hz

/-- **The entries of a section stop at their places, or at two operations of one name.** -/
theorem stops_routes : ∀ {entries : List (String × α)} {registry : Registry},
    (∀ e ∈ entries, ∀ registry,
      type e.1 (base.child e.1) e.2 registry = registered (step e) registry) →
    (∀ e ∈ entries, Stops (Fault.Placed At) (step e)) →
    (∀ e ∈ entries, ∀ x, Gives (step e) x → ∀ o ∈ x.2, D o) → (∀ o ∈ registry, D o) →
    Stops (fun e => e.Placed At ∨ Clash D e) (routes type base entries registry)
  | [], _, _, _, _, _ => stops_pure _
  | e :: rest, registry, htype, hstops, hD, hr => by
    rw [routes, htype e List.mem_cons_self]
    have hfirst := stops_registered (hstops e List.mem_cons_self) (hD e List.mem_cons_self) hr
    refine hfirst.bind fun x hx => Stops.bind_pure ?_ _
    exact stops_routes (fun e he => htype e (List.mem_cons_of_mem _ he))
      (fun e he => hstops e (List.mem_cons_of_mem _ he))
      (fun e he => hD e (List.mem_cons_of_mem _ he))
      (registered_mem (hD e List.mem_cons_self) hr hx)

end Routes

end Registry

/-! ## 3. Descriptions -/

/-- The operations of the entries of a description. -/
def OfEntry (env : Environment) (s : Spec) (o : TypedOperation) : Prop :=
  ∃ kind name part x, s.Entry kind name part ∧ Gives (entry env kind name part) x ∧ o ∈ x.2

/-- **A description stops at a place in its entries or its components, or at two operations of one
name.** -/
theorem stops_spec (hchains : env.Chains At) {s : Spec}
    (hentries : ∀ kind name part, s.Entry kind name part → PlacedEntry env At kind name part)
    (hcomponents : (s.components.getD {}).Placed env At) :
    Stops (fun e => e.Placed At ∨ Clash (OfEntry env s) e) (spec env s) := by
  have hpath : ∀ e ∈ ordered env.config.alphabetize (s.paths.getD []),
      s.Entry .path e.1 (.item e.2) := fun e he => mem_ordered.mp he
  have hwebhook : ∀ e ∈ ordered env.config.alphabetize (s.webhooks.getD []),
      s.Entry .webhook e.1 e.2 := fun e he => mem_ordered.mp he
  have hpathOps : ∀ e ∈ ordered env.config.alphabetize (s.paths.getD []), ∀ x,
      Gives (entry env .path e.1 (.item e.2)) x → ∀ o ∈ x.2, OfEntry env s o :=
    fun e he x hx o ho => ⟨.path, e.1, _, x, hpath e he, hx, ho⟩
  refine Stops.bind (Stops.bind_pure ?_ _) fun paths hpaths => ?_
  · exact stops_routes (fun e => entry env .path e.1 (.item e.2))
      (fun _ _ _ => path_eq) (fun e he => stops_entry hchains (hentries _ _ _ (hpath e he)))
      hpathOps fun o ho => absurd ho List.not_mem_nil
  obtain ⟨routed, hrouted, hpaths⟩ := hpaths.of_bind
  have hregistered : ∀ o ∈ paths.2, OfEntry env s o := by
    rw [hpaths.of_pure]
    exact routes_mem (fun e => entry env .path e.1 (.item e.2))
      (fun _ _ _ => path_eq) hpathOps (fun o ho => absurd ho List.not_mem_nil) _ hrouted
  refine Stops.bind (Stops.bind_pure ?_ _) fun webhooks _ => ?_
  · exact stops_routes (fun e => entry env .webhook e.1 e.2)
      (fun _ _ _ => webhook_eq)
      (fun e he => stops_entry hchains (hentries _ _ _ (hwebhook e he)))
      (fun e he x hx o ho => ⟨.webhook, e.1, _, x, hwebhook e he, hx, ho⟩) hregistered
  exact ((stops_components hchains hcomponents).mono fun _ => Or.inl).bind_pure _

end Typing

/-! ## 4. Documents -/

namespace Document

open Typing

/-- **A document stops at a place in its entries or its components, or at two operations of one
name.** -/
theorem placed_of_typed {d : Document} {config : Config} {At : Places}
    (hchains : Environment.Chains ⟨config, d.resolver⟩ At)
    (hentries : ∀ kind name part, d.spec.Entry kind name part →
      PlacedEntry ⟨config, d.resolver⟩ At kind name part)
    (hcomponents : (d.spec.components.getD {}).Placed ⟨config, d.resolver⟩ At) {e : Fault}
    (h : d.typed config = .error e) :
    e.Placed At ∨ Clash (OfEntry ⟨config, d.resolver⟩ d.spec) e := by
  unfold typed at h
  split at h
  · rename_i hrun
    cases h
    exact (stops_spec hchains hentries hcomponents).of_run hrun
  · cases h

end Document

end ApiTypes
