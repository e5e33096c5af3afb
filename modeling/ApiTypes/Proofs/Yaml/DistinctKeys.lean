/-
# Mappings without repeated keys

A reader refuses a mapping that has a key twice.  It compares the keys as values, so that a number
and the string that spells it are two keys, and so are a value with a tag and the same without it.

* `Value.mappings` lists the mappings in a value, at any depth.
* `Value.DistinctKeys` is the rule for them.
* `Value.distinctKeys_of_ofText`: whatever is read from a text keeps the rule.
-/
import ApiTypes.Yaml.Compose
import Mathlib.Data.List.Basic

namespace ApiTypes.Yaml.Value

/-! ## 1. The mappings in a value -/

mutual
/-- The mappings in a value, at any depth. -/
def mappings : Value → List (List (Value × Value))
  | .sequence items => itemMappings items
  | .mapping entries => entries :: entryMappings entries
  | .tagged _ v => mappings v
  | .null | .bool _ | .number _ | .string _ => []

/-- The mappings in the items of a sequence. -/
def itemMappings : List Value → List (List (Value × Value))
  | [] => []
  | v :: rest => mappings v ++ itemMappings rest

/-- The mappings in the values of entries. -/
def entryMappings : List (Value × Value) → List (List (Value × Value))
  | [] => []
  | (_, v) :: rest => mappings v ++ entryMappings rest
end

variable {v : Value} {items : List Value} {entries m : List (Value × Value)}

theorem mem_itemMappings : m ∈ itemMappings items ↔ ∃ v ∈ items, m ∈ v.mappings := by
  induction items with
  | nil => simp [itemMappings]
  | cons v rest ih => simp [itemMappings, ih]

theorem mem_entryMappings : m ∈ entryMappings entries ↔ ∃ e ∈ entries, m ∈ e.2.mappings := by
  induction entries with
  | nil => simp [entryMappings]
  | cons e rest ih => simp [entryMappings, ih]

/-- No mapping has a key twice, the keys being looked at as values. -/
def DistinctKeys (v : Value) : Prop :=
  ∀ entries ∈ v.mappings, entries.Pairwise fun e f => f.1.same e.1 = false

instance (v : Value) : Decidable v.DistinctKeys :=
  inferInstanceAs (Decidable (∀ entries ∈ v.mappings, _))

theorem distinctKeys_mapping {entries : List (Value × Value)} :
    (mapping entries).DistinctKeys ↔
      (entries.Pairwise fun e f => f.1.same e.1 = false) ∧ ∀ e ∈ entries, e.2.DistinctKeys := by
  rw [DistinctKeys, mappings, List.forall_mem_cons]
  refine and_congr_right fun _ => ?_
  constructor
  · exact fun h e he m hm => h m (mem_entryMappings.mpr ⟨e, he, hm⟩)
  · intro h m hm
    obtain ⟨e, he, hm⟩ := mem_entryMappings.mp hm
    exact h e he m hm

theorem distinctKeys_sequence {items : List Value} (h : ∀ v ∈ items, v.DistinctKeys) :
    (sequence items).DistinctKeys := by
  intro m hm
  rw [mappings, mem_itemMappings] at hm
  obtain ⟨v, hv, hm⟩ := hm
  exact h v hv m hm

theorem distinctKeys_withTag {ps : Properties ℕ} {v : Value} (h : v.DistinctKeys) :
    (withTag ps v).DistinctKeys := by
  unfold withTag
  split
  · split
    · intro m hm
      rw [mappings] at hm
      exact h m hm
    · exact h
  · exact h

/-! ## 2. What is composed -/

section Yields

variable {α β : Type} {P : α → Prop} {Q : β → Prop}

/-- Whatever is composed has a property. -/
def Yields (P : α → Prop) (m : Composing α) : Prop := ∀ n a n', m.run n = .ok (a, n') → P a

theorem yields_pure {a : α} (h : P a) : Yields P (pure a) := by
  intro n b n' hrun
  cases hrun
  exact h

theorem yields_throw (e : Error) : Yields P (throw e) := by
  intro n a n' hrun
  cases hrun

theorem Yields.bind {m : Composing α} {f : α → Composing β} (h : Yields P m)
    (hf : ∀ a, P a → Yields Q (f a)) : Yields Q (m >>= f) := by
  intro n b n' hrun
  rw [StateT.run_bind] at hrun
  cases hm : m.run n with
  | error e =>
    rw [hm] at hrun
    cases hrun
  | ok x =>
    rw [hm] at hrun
    exact hf x.1 (h n x.1 x.2 hm) x.2 b n' hrun

theorem yields_true (m : Composing α) : Yields (fun _ => True) m := fun _ _ _ _ => trivial

theorem yields_lift {r : Except Error α} (h : ∀ a, r = .ok a → P a) :
    Yields P (liftM r : Composing α) := by
  intro n a n' hrun
  cases r with
  | error e => cases hrun
  | ok b =>
    cases hrun
    exact h a rfl

theorem yields_mapM {f : α → Composing β} (h : ∀ a, Yields Q (f a)) : ∀ as : List α,
    Yields (fun bs => ∀ b ∈ bs, Q b) (as.mapM f)
  | [] => yields_pure nofun
  | a :: as => by
    rw [List.mapM_cons]
    refine (h a).bind fun b hb => (yields_mapM h as).bind fun bs hbs => yields_pure ?_
    exact List.forall_mem_cons.mpr ⟨hb, hbs⟩

theorem yields_foldlM {f : β → α → Composing β} (h : ∀ b a, Q b → Yields Q (f b a)) :
    ∀ (as : List α) (b : β), Q b → Yields Q (as.foldlM f b)
  | [], b, hb => yields_pure hb
  | a :: as, b, hb => by
    rw [List.foldlM_cons]
    exact (h b a hb).bind fun b' hb' => yields_foldlM h as b' hb'

end Yields

/-! ## 3. Scalars -/

theorem mappings_plain {text : String} {v : Value} (h : Resolve.plain text = .ok v) :
    v.mappings = [] := by
  unfold Resolve.plain at h
  dsimp only at h
  split at h
  · cases h
    rfl
  · split at h
    · cases h
      rfl
    · split at h
      · cases h
        rfl
      · cases h
      · split at h <;> (cases h; rfl)

theorem mappings_untagged {isPlain : Bool} {text : String} {v : Value}
    (h : Resolve.untagged isPlain text = .ok v) : v.mappings = [] := by
  unfold Resolve.untagged at h
  split at h
  · exact mappings_plain h
  · cases h
    rfl

theorem mappings_orExpected {α : Type} {expected : String} {o : Option α} {f : α → Value}
    {v : Value} (hf : ∀ a, (f a).mappings = []) (h : (Resolve.orExpected expected o).map f = .ok v) :
    v.mappings = [] := by
  cases o with
  | none => cases h
  | some a =>
    cases h
    exact hf a

/-- A scalar holds no mapping. -/
theorem mappings_scalar {tag : Option String} {isPlain : Bool} {text : String} {v : Value}
    (h : Resolve.scalar tag isPlain text = .ok v) : v.mappings = [] := by
  unfold Resolve.scalar at h
  cases tag with
  | none => exact mappings_untagged h
  | some tag =>
    dsimp only at h
    split at h
    · cases huntagged : Resolve.untagged isPlain text with
      | error e =>
        rw [huntagged] at h
        cases h
      | ok w =>
        rw [huntagged] at h
        cases h
        rw [mappings]
        exact mappings_untagged huntagged
    · split at h
      · exact mappings_orExpected (fun _ => rfl) h
      · split at h
        · split at h <;> cases h
          rfl
        · split at h
          · exact mappings_orExpected (fun _ => rfl) h
          · split at h
            · split at h <;> cases h
              rfl
            · cases h
              rfl

/-! ## 4. Texts -/

/-- An entry is added only if its key is new. -/
theorem yields_addEntry {entries : List (Value × Value)} {key value : Value}
    (h : (mapping entries).DistinctKeys) (hvalue : value.DistinctKeys) :
    Yields (fun entries => (mapping entries).DistinctKeys) (addEntry entries key value) := by
  unfold addEntry
  split
  · exact yields_throw _
  · rename_i hfresh
    refine yields_pure ?_
    obtain ⟨hkeys, hvalues⟩ := distinctKeys_mapping.mp h
    have hnew : ∀ e ∈ entries, key.same e.1 = false := by
      simpa only [List.any_eq_true, not_exists, not_and, Bool.not_eq_true] using hfresh
    refine distinctKeys_mapping.mpr ⟨?_, ?_⟩
    · refine List.pairwise_append.mpr ⟨hkeys, List.pairwise_singleton _ _, fun e he f hf => ?_⟩
      rw [List.mem_singleton.mp hf]
      exact hnew e he
    · exact List.forall_mem_append.mpr ⟨hvalues, List.forall_mem_singleton.mpr hvalue⟩

theorem yields_scalar (tag : Option String) (isPlain : Bool) (text : String) :
    Yields DistinctKeys (liftM (Resolve.scalar tag isPlain text) : Composing Value) := by
  refine yields_lift fun v hv m hm => ?_
  rw [mappings_scalar hv] at hm
  cases hm

theorem yields_compose (s : Source) : ∀ (depth : ℕ) (n : Node ℕ),
    Yields DistinctKeys (compose s depth n)
  | 0, n => by
    rw [compose]
    refine (yields_true _).bind fun node _ => ?_
    split
    · exact yields_scalar _ _ _
    · exact yields_throw _
  | depth + 1, n => by
    rw [compose]
    refine (yields_true _).bind fun node _ => ?_
    split
    · exact yields_throw _
    · exact yields_scalar _ _ _
    · refine (yields_mapM (yields_compose s depth) _).bind fun items hitems => yields_pure ?_
      exact distinctKeys_withTag (distinctKeys_sequence hitems)
    · refine Yields.bind (P := fun entries => (mapping entries).DistinctKeys)
        (yields_foldlM ?_ _ _ ?_) fun entries h => yields_pure (distinctKeys_withTag h)
      · rintro entries ⟨k, v⟩ hentries
        exact (yields_compose s depth k).bind fun key _ => (yields_compose s depth v).bind
          fun value hvalue => yields_addEntry hentries hvalue
      · exact distinctKeys_mapping.mpr ⟨List.Pairwise.nil, nofun⟩

theorem distinctKeys_of_ofNode {root : Node ℕ} {v : Value} (h : ofNode root = .ok v) :
    v.DistinctKeys := by
  rw [ofNode] at h
  cases hrun : (compose ⟨root.targets, maxRepetition * root.size⟩ maxDepth root).run 0 with
  | error e =>
    simp only [hrun] at h
    cases h
  | ok x =>
    simp only [hrun] at h
    cases h
    exact yields_compose _ _ root 0 x.1 x.2 hrun

/-- **A text with a key twice in a mapping is refused.** -/
theorem distinctKeys_of_ofText {text : String} {v : Value} (h : ofText text = .ok v) :
    v.DistinctKeys := by
  unfold ofText at h
  cases hread : Node.read text with
  | error e =>
    rw [hread] at h
    cases h
  | ok tree =>
    rw [hread] at h
    cases tree with
    | none =>
      cases h
      nofun
    | some root =>
      cases hnumbered : root.numbered with
      | error e =>
        change (root.numbered >>= _) = _ at h
        rw [hnumbered] at h
        cases h
      | ok numbered =>
        change (root.numbered >>= _) = _ at h
        rw [hnumbered] at h
        exact distinctKeys_of_ofNode h

end ApiTypes.Yaml.Value
