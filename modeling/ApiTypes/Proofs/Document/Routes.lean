/-
# Routes

The entries of the paths and of the webhooks are typed one after the other, each with the registry
that the ones before it leave.  An entry only adds its operations to the registry, so it does not
matter when they are registered: all entries may be typed first, and the components too, and the
operations be registered in the end.

* `Typing.entry` types an entry of either section without a registry, and `Typing.collected` a
  whole description that way.
* `Typing.agree_collected` says that it agrees with `Typing.spec`.
* `Typing.agree_entry`: an entry is typed alike in either order of siblings.
-/
import ApiTypes.Proofs.Typing.ComponentOrder

namespace ApiTypes

/-- Where the entry of a section stands under its name. -/
def RouteKind.place (kind : RouteKind) (name : String) : Pointer :=
  match kind with
  | .path => (Pointer.root.child "paths").child name
  | .webhook => (Pointer.root.child "webhooks").child name

namespace Typing

/-! ## 1. Entries -/

/-- The path item that an entry at a pointer stands for, and where that is. -/
def itemOf (env : Environment) (p : Pointer) : OrRef PathItem → Typing (Pointer × PathItem)
  | .ref r => pathItemAt env r.target p
  | .item item => followed env p item

/-- The key of the member of an entry, given its typed operations. -/
def routeKey (env : Environment) (kind : RouteKind) (name : String) (os : List TypedOperation) :
    MemberKey TypeExpr :=
  match kind with
  | .path => pathKey env name os
  | .webhook => .name name

/-- The member of a path item that an entry stands for, and its operations. -/
def described (env : Environment) (kind : RouteKind) (name : String) (p : Pointer)
    (item : PathItem) : Typing (Member TypeExpr × List TypedOperation) := do
  let os ← operationsOf env kind name p item
  let type ← pathRecord env p item os fun o => .operation o.name
  return (memberFor env (routeKey env kind name os) type (pathDoc item), os)

/-- The member of an entry of a section, and its operations. -/
def entry (env : Environment) (kind : RouteKind) (name : String) (part : OrRef PathItem) :
    Typing (Member TypeExpr × List TypedOperation) := do
  let (p, item) ← itemOf env (kind.place name) part
  described env kind name p item

/-- The key of the member of an entry. -/
theorem key_of_entry {env : Environment} {kind : RouteKind} {name : String}
    {part : OrRef PathItem} {x : Member TypeExpr × List TypedOperation}
    (h : Gives (entry env kind name part) x) : ∃ os, x.1.key = routeKey env kind name os := by
  obtain ⟨_, _, h⟩ := h.of_bind
  obtain ⟨os, _, h⟩ := h.of_bind
  obtain ⟨_, _, h⟩ := h.of_bind
  rw [h.of_pure]
  exact ⟨os, rfl⟩

/-- A typed entry whose operations are added to a registry. -/
def registered (t : Typing (Member TypeExpr × List TypedOperation)) (registry : Registry) :
    Typing (Member TypeExpr × Registry) := do
  let (member, os) ← t
  let registry ← registerAll registry os
  return (member, registry)

variable {env : Environment} {b : Bool} {kind : RouteKind} {name : String} {registry : Registry}

theorem path_eq {item : PathItem} :
    path env name (RouteKind.path.place name) item registry
      = registered (entry env .path name (.item item)) registry := by
  simp only [path, registered, entry, itemOf, route, described, routeKey, bind_assoc, pure_bind]

theorem webhook_eq {part : OrRef PathItem} :
    webhook env name (RouteKind.webhook.place name) part registry
      = registered (entry env .webhook name part) registry := by
  cases part <;>
    simp only [webhook, registered, entry, itemOf, route, described, routeKey, bind_assoc,
      pure_bind]

/-! ## 2. Registering in the end -/

theorem lift_bind {α β : Type} (x : Except Fault α) (f : α → Except Fault β) :
    lift (x >>= f) = lift x >>= fun a => lift (f a) := by
  cases x <;> rfl

theorem registerAll_append {os os' : List TypedOperation} :
    registerAll registry (os ++ os')
      = registerAll registry os >>= fun registry => registerAll registry os' := by
  rw [registerAll, List.foldlM_append, lift_bind]
  rfl

theorem agree_registerAll (registry : Registry) (os : List TypedOperation) :
    Agree Eq (registerAll registry os) (registerAll registry os) :=
  agree_lift _

section Sections

variable {α : Type} {step : String × α → Typing (Member TypeExpr × List TypedOperation)}

/-- The entries of a section, and then their operations. -/
theorem agree_routes {type : String → Pointer → α → Registry → Typing (Member TypeExpr × Registry)}
    {base : Pointer} : ∀ (entries : List (String × α)) (registry : Registry),
    (∀ e ∈ entries, ∀ registry,
      type e.1 (base.child e.1) e.2 registry = registered (step e) registry) →
    (∀ e ∈ entries, Agree Eq (step e) (step e)) →
    Agree Eq (routes type base entries registry)
      (entries.mapM step >>= fun xs =>
        registerAll registry (xs.flatMap Prod.snd) >>= fun registry =>
          pure (xs.map Prod.fst, registry))
  | [], registry, _, _ => by
    rw [routes, List.mapM_nil, pure_bind]
    exact agree_pure rfl
  | e :: rest, registry, htype, hstep => by
    have htype' := fun e he => htype e (List.mem_cons_of_mem _ he)
    have hstep' := fun e he => hstep e (List.mem_cons_of_mem _ he)
    have hrest : Agree Eq (rest.mapM step) (rest.mapM step) := agree_mapM_eq hstep'
    rw [routes, htype e List.mem_cons_self, List.mapM_cons, registered]
    simp only [bind_assoc, pure_bind, List.flatMap_cons, registerAll_append, List.map_cons]
    refine (hstep e List.mem_cons_self).bind_eq fun x => ?_
    let last (registry : Registry) (xs : List (Member TypeExpr × List TypedOperation)) :=
      registerAll registry (xs.flatMap Prod.snd) >>= fun registry =>
        pure (x.1 :: xs.map Prod.fst, registry)
    have hlast : ∀ registry xs, Agree Eq (last registry xs) (last registry xs) := fun registry xs =>
      (agree_registerAll _ _).bind_eq fun registry => agree_pure rfl
    refine Agree.eq_comp ?_ (agree_exchange (agree_registerAll _ _) hrest hlast)
    refine (agree_registerAll _ _).bind_eq fun registry => ?_
    have ih := (agree_routes rest registry htype' hstep').bind_eq fun y =>
      agree_pure (rfl : (x.1 :: y.1, y.2) = _)
    simp only [bind_assoc, pure_bind] at ih
    exact ih

/-- A section, and then its operations. -/
theorem agree_sectionOf
    {type : String → Pointer → α → Registry → Typing (Member TypeExpr × Registry)}
    {section_ : String} (entries : Option (List (String × α))) (registry : Registry)
    (htype : ∀ name a registry,
      type name ((Pointer.root.child section_).child name) a registry
        = registered (step (name, a)) registry)
    (hstep : ∀ e, Agree Eq (step e) (step e)) :
    Agree Eq (sectionOf env section_ type entries registry)
      ((ordered env.config.alphabetize (entries.getD [])).mapM step >>= fun xs =>
        registerAll registry (xs.flatMap Prod.snd) >>= fun registry =>
          pure (.closed (xs.map Prod.fst), registry)) := by
  have hroutes := agree_routes (ordered env.config.alphabetize (entries.getD [])) registry
    (fun e _ => htype e.1 e.2) fun e _ => hstep e
  have h := hroutes.bind_eq fun y => agree_pure (rfl : (TypeExpr.closed y.1, y.2) = _)
  simp only [bind_assoc, pure_bind] at h
  exact h

end Sections

theorem agree_itemOf {p : Pointer} (part : OrRef PathItem) :
    Agree Eq (itemOf env p part) (itemOf (env.shown b) p part) := by
  cases part with
  | ref r => exact agree_pathItemAt
  | item item => exact agree_followed item

/-- Two typings of an entry of a section, in either order of siblings: the members are equal, and
so are the operations up to their types. -/
def EntryTwins (env env' : Environment) (kind : RouteKind) (name : String) (part : OrRef PathItem)
    (x y : Member TypeExpr × List TypedOperation) : Prop :=
  x.1 = y.1 ∧ ∃ p item, Gives (itemOf env (kind.place name) part) (p, item) ∧
    InStep (OperationTwins env env' ⟨kind, name, p, item.parameters⟩) item.operations x.2 y.2

/-- **An entry is typed alike in either order of siblings.** -/
theorem agree_entry (part : OrRef PathItem) :
    Agree (EntryTwins env (env.shown b) kind name part) (entry env kind name part)
      (entry (env.shown b) kind name part) := by
  refine Agree.bind ((agree_itemOf part).mono_gives fun x y hx _ heq => And.intro heq hx) ?_
  rintro ⟨p, item⟩ _ ⟨rfl, hitem⟩
  refine (agree_operationsOf item).bind fun os os' hos => ?_
  refine agree_pathRecord.bind fun s t hst => ?_
  obtain ⟨shared, hs, ht⟩ := hst
  have hmembers : os.map (operationMember env fun o => .operation o.name)
      = os'.map (operationMember (env.shown b) fun o => .operation o.name) := by
    refine hos.map_eq fun o s t h => ?_
    rw [operationMember, operationMember, h.same.method, h.same.name, h.same.doc]
    rfl
  have hparams : os.flatMap (·.pathParams) = os'.flatMap (·.pathParams) := by
    rw [List.flatMap_def, List.flatMap_def, hos.map_eq fun _ _ _ h => h.same.pathParams]
  have hkey : routeKey env kind name os = routeKey (env.shown b) kind name os' := by
    cases kind with
    | path =>
      rw [routeKey, routeKey, pathKey, pathKey, hparams]
      rfl
    | webhook => rfl
  refine agree_pure ⟨?_, p, item, hitem, hos⟩
  rw [hkey, hs, ht, hmembers]
  rfl

/-- The typing of a description whose operations are registered in the end. -/
def collected (env : Environment) (s : Spec) :
    Typing (TypeExpr × TypeExpr × TypeExpr × Registry) := do
  let paths ← (ordered env.config.alphabetize (s.paths.getD [])).mapM fun e =>
    entry env .path e.1 (.item e.2)
  let webhooks ← (ordered env.config.alphabetize (s.webhooks.getD [])).mapM fun e =>
    entry env .webhook e.1 e.2
  let components ← components env (s.components.getD {})
  let operations ← registerAll [] (paths.flatMap Prod.snd ++ webhooks.flatMap Prod.snd)
  return (.closed (paths.map Prod.fst), .closed (webhooks.map Prod.fst), components, operations)

/-- **It does not matter that the operations are registered on the way.** -/
theorem agree_collected (s : Spec) : Agree Eq (spec env s) (collected env s) := by
  have hpath : ∀ e : String × PathItem, Agree Eq (entry env .path e.1 (.item e.2))
      (entry env .path e.1 (.item e.2)) := fun e => (agree_entry (b := true) _).left
  have hwebhook : ∀ e : String × OrRef PathItem, Agree Eq (entry env .webhook e.1 e.2)
      (entry env .webhook e.1 e.2) := fun e => (agree_entry (b := true) _).left
  have hwebhooks := agree_mapM_eq
    fun e (_ : e ∈ ordered env.config.alphabetize (s.webhooks.getD [])) => hwebhook e
  have hcomponents : Agree Eq (components env (s.components.getD {}))
      (components env (s.components.getD {})) := (agree_components (b := true) _).left
  unfold spec collected
  refine Agree.eq_comp ((agree_sectionOf s.paths [] (fun _ _ _ => path_eq) hpath).bind_eq fun x =>
    (agree_sectionOf s.webhooks x.2 (fun _ _ _ => webhook_eq) hwebhook).bind_eq fun y =>
      hcomponents.bind_eq fun c => agree_pure rfl) ?_
  simp only [bind_assoc, pure_bind]
  refine (agree_mapM_eq fun e _ => hpath e).bind_eq fun xs => ?_
  -- the operations of the paths wait for the webhooks, then all of them for the components
  refine Agree.eq_comp (agree_exchange (agree_registerAll _ _) hwebhooks fun registry ys =>
    (agree_registerAll _ _).bind_eq fun registry => hcomponents.bind_eq fun c => agree_pure rfl) ?_
  refine hwebhooks.bind_eq fun ys => ?_
  rw [← bind_assoc, ← registerAll_append]
  exact agree_exchange (agree_registerAll _ _) hcomponents fun registry c => agree_pure rfl

end Typing

end ApiTypes
