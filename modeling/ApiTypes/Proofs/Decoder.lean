/-
# What decoding records gives

Records are read by layouts, field by field, and what holds of a record that was read follows
from what holds of its fields.  This module says it once for all layouts, in two ways: a
property that every field keeps is a property of the record (`Layout.ensures`), and the value
under a key is what the field of that name holds (`Layout.Reads.of_decode`).

* `Decoder.Ensures decode Q`: what is read from a value without repeated keys satisfies `Q`.
* `Decoder.ensures_list`, `Decoder.ensures_named`, … for the collections.
-/
import ApiTypes.Decoder
import ApiTypes.Proofs.Json.Keys
import Mathlib.Data.List.Forall2

namespace ApiTypes

/-! ## 1. Results -/

section Results

variable {ε α β : Type}

/-- A result of two steps comes from a result of the first. -/
theorem ok_of_bind {x : Except ε α} {f : α → Except ε β} {b : β} (h : x >>= f = .ok b) :
    ∃ a, x = .ok a ∧ f a = .ok b := by
  cases x with
  | error e => cases h
  | ok a => exact ⟨a, rfl, h⟩

theorem ok_of_map {x : Except ε α} {f : α → β} {b : β} (h : x.map f = .ok b) :
    ∃ a, x = .ok a ∧ b = f a := by
  cases x with
  | error e => cases h
  | ok a =>
    cases h
    exact ⟨a, rfl, rfl⟩

/-- A list of results is made of a result for each item. -/
theorem forall₂_of_mapM {f : α → Except ε β} : ∀ {as : List α} {bs : List β},
    as.mapM f = .ok bs → List.Forall₂ (fun a b => f a = .ok b) as bs
  | [], _, h => by
    cases h
    exact .nil
  | a :: as, _, h => by
    rw [List.mapM_cons] at h
    obtain ⟨b, hb, h⟩ := ok_of_bind h
    obtain ⟨bs, hbs, h⟩ := ok_of_bind h
    cases h
    exact .cons hb (forall₂_of_mapM hbs)

theorem mapM_of_forall₂ {f : α → Except ε β} {as : List α} {bs : List β}
    (h : List.Forall₂ (fun a b => f a = .ok b) as bs) : as.mapM f = .ok bs := by
  induction h with
  | nil => rfl
  | cons hab _ ih =>
    rw [List.mapM_cons, hab, ih]
    rfl

/-- What every item of one list has in the other. -/
theorem exists_of_forall₂ {R : α → β → Prop} {as : List α} {bs : List β}
    (h : List.Forall₂ R as bs) {b : β} (hb : b ∈ bs) : ∃ a ∈ as, R a b := by
  induction h with
  | nil => exact absurd hb (by simp)
  | cons hR _ ih =>
    rcases List.mem_cons.mp hb with rfl | hb
    · exact ⟨_, List.mem_cons_self, hR⟩
    · obtain ⟨a, ha, hR⟩ := ih hb
      exact ⟨a, List.mem_cons_of_mem _ ha, hR⟩

/-- What divides one list divides the other. -/
theorem exists_split_of_forall₂ {R : α → β → Prop} {as : List α} {before after : List β} {b : β}
    (h : List.Forall₂ R as (before ++ b :: after)) :
    ∃ first a last, as = first ++ a :: last ∧ List.Forall₂ R first before ∧ R a b := by
  obtain ⟨a, last, ha, _, hlast⟩ :=
    List.forall₂_cons_right_iff.mp (List.forall₂_drop_append as before (b :: after) h)
  refine ⟨as.take before.length, a, last, ?_, List.forall₂_take_append as before _ h, ha⟩
  rw [← hlast, List.take_append_drop]

/-- Lists related item by item have related maps. -/
theorem map_eq_of_forall₂ {γ : Type} {R : α → β → Prop} {f : α → γ} {g : β → γ} {as : List α}
    {bs : List β} (h : List.Forall₂ R as bs) (hR : ∀ a b, R a b → g b = f a) :
    bs.map g = as.map f := by
  induction h with
  | nil => rfl
  | cons hab _ ih => rw [List.map_cons, List.map_cons, ih, hR _ _ hab]

end Results

/-! ## 2. Properties of what is read -/

/-- Named parts of which no two have a name in common, and all of which have a property. -/
structure UniqueEntries {α : Type} (Q : α → Prop) (entries : List (String × α)) : Prop where
  names : (entries.map Prod.fst).Nodup
  parts : ∀ e ∈ entries, Q e.2

namespace Decoder

variable {α β γ : Type} {decode : Decoder α} {Q : α → Prop}

/-- What is read from a value without repeated keys has a property. -/
def Ensures (decode : Decoder α) (Q : α → Prop) : Prop :=
  ∀ v a, v.UniqueKeys → decode v = .ok a → Q a

/-- An optional value is null, or is read. -/
theorem ok_of_optional {v : Json} {o : Option α} (h : optional decode v = .ok o) :
    (v = .null ∧ o = none) ∨ ∃ a, decode v = .ok a ∧ o = some a := by
  unfold optional at h
  split at h
  · cases h
    exact Or.inl ⟨rfl, rfl⟩
  · exact Or.inr (ok_of_map h)

theorem ensures_optional (h : Ensures decode Q) :
    Ensures (optional decode) fun o => ∀ a, o = some a → Q a := by
  intro v o hv ho a ha
  rcases ok_of_optional ho with ⟨_, hnone⟩ | ⟨b, hb, hsome⟩
  · rw [hnone] at ha
    cases ha
  · rw [hsome] at ha
    cases ha
    exact h v _ hv hb

theorem ensures_list (h : Ensures decode Q) : Ensures (list decode) fun as => ∀ a ∈ as, Q a := by
  intro v as hv has a ha
  unfold list at has
  split at has
  · obtain ⟨w, hw, hwa⟩ := exists_of_forall₂ (forall₂_of_mapM has) ha
    exact h w a (hv.item hw) hwa
  · cases has

/-- The parts read under the keys of an object. -/
theorem uniqueEntries_of_forall₂ {fields : List (String × Json)} {entries : List (String × α)}
    (keys : (fields.map Prod.fst).Nodup) (values : ∀ f ∈ fields, f.2.UniqueKeys)
    (h : Ensures decode Q)
    (hread : List.Forall₂ (fun f e => e.1 = f.1 ∧ decode f.2 = .ok e.2) fields entries) :
    UniqueEntries Q entries := by
  refine ⟨?_, ?_⟩
  · rw [map_eq_of_forall₂ hread fun _ _ he => he.1]
    exact keys
  · intro e he
    obtain ⟨f, hf, hfe⟩ := exists_of_forall₂ hread he
    exact h f.2 e.2 (values f hf) hfe.2

/-- The fields from which the entries of an object are read. -/
theorem forall₂_of_named {v : Json} {entries : List (String × α)}
    (h : named decode v = .ok entries) :
    ∃ fields, v = .object fields ∧
      List.Forall₂ (fun f e => e.1 = f.1 ∧ decode f.2 = .ok e.2) fields entries := by
  unfold named at h
  split at h
  · refine ⟨_, rfl, (forall₂_of_mapM h).imp ?_⟩
    intro f e he
    obtain ⟨a, ha, rfl⟩ := ok_of_map he
    exact ⟨rfl, ha⟩
  · cases h

theorem forall₂_of_entries {v : Json} {es : List (String × α)} (h : entries decode v = .ok es) :
    ∃ fields, v = .object fields ∧
      List.Forall₂ (fun f e => e.1 = f.1 ∧ decode f.2 = .ok e.2)
        (fields.filter fun f => !isExtension f.1) es := by
  unfold entries at h
  split at h
  · refine ⟨_, rfl, (forall₂_of_mapM h).imp ?_⟩
    intro f e he
    cases ha : decode f.2 with
    | ok a =>
      simp only [ha] at he
      cases he
      exact ⟨rfl, rfl⟩
    | error e =>
      simp only [ha] at he
      cases he
  · cases h

theorem entries_of_forall₂ {fields : List (String × Json)} {es : List (String × α)}
    (h : List.Forall₂ (fun f e => e.1 = f.1 ∧ decode f.2 = .ok e.2)
      (fields.filter fun f => !isExtension f.1) es) :
    entries decode (.object fields) = .ok es := by
  refine mapM_of_forall₂ (h.imp fun f e he => ?_)
  simp only [he.2, ← he.1]

theorem ensures_named (h : Ensures decode Q) : Ensures (named decode) (UniqueEntries Q) := by
  intro v es hv hes
  obtain ⟨fields, rfl, hread⟩ := forall₂_of_named hes
  exact uniqueEntries_of_forall₂ hv.nodup (fun f hf => hv.field hf) h hread

theorem ensures_entries (h : Ensures decode Q) : Ensures (entries decode) (UniqueEntries Q) := by
  intro v es hv hes
  obtain ⟨fields, rfl, hread⟩ := forall₂_of_entries hes
  refine uniqueEntries_of_forall₂ ?_ (fun f hf => hv.field (List.mem_of_mem_filter hf)) h hread
  exact hv.nodup.sublist (List.filter_sublist.map _)

/-- The entries of an object are its fields, read one by one. -/
theorem mem_of_forall₂ {fields : List (String × Json)} {entries : List (String × α)}
    (keys : (fields.map Prod.fst).Nodup)
    (h : List.Forall₂ (fun f e => e.1 = f.1 ∧ decode f.2 = .ok e.2) fields entries)
    {name : String} {a : α} :
    (name, a) ∈ entries ↔ ∃ v, (name, v) ∈ fields ∧ decode v = .ok a := by
  induction h with
  | nil => simp
  | cons hfe hrest ih =>
    rename_i f e fs es
    rw [List.map_cons, List.nodup_cons] at keys
    rw [List.mem_cons, ih keys.2]
    constructor
    · rintro (rfl | ⟨v, hv, ha⟩)
      · exact ⟨f.2, List.mem_cons.mpr (Or.inl (Prod.ext hfe.1 rfl)), hfe.2⟩
      · exact ⟨v, List.mem_cons_of_mem _ hv, ha⟩
    · rintro ⟨v, hv, ha⟩
      rcases List.mem_cons.mp hv with rfl | hv
      · rw [hfe.2, Except.ok.injEq] at ha
        exact Or.inl (Prod.ext hfe.1.symm ha.symm)
      · exact Or.inr ⟨v, hv, ha⟩

theorem mem_entries_iff {fs : List (String × Json)} {es : List (String × α)}
    (keys : (fs.map Prod.fst).Nodup) (h : entries decode (.object fs) = .ok es) {name : String}
    {a : α} : (name, a) ∈ es ↔
      isExtension name = false ∧ ∃ v, Json.lookup name fs = some v ∧ decode v = .ok a := by
  obtain ⟨_, heq, hread⟩ := forall₂_of_entries h
  cases heq
  rw [mem_of_forall₂ (keys.sublist (List.filter_sublist.map _)) hread]
  simp only [Json.lookup_iff_mem keys, List.mem_filter, Bool.not_eq_true']
  constructor
  · rintro ⟨v, ⟨hv, hx⟩, ha⟩
    exact ⟨hx, v, hv, ha⟩
  · rintro ⟨hx, v, hv, ha⟩
    exact ⟨v, ⟨hv, hx⟩, ha⟩

/-- A collection that is null or an object has an entry for every key that a pointer finds. -/
theorem exists_of_optional_named {w v : Json} {o : Option (List (String × α))} {name : String}
    (h : optional (named decode) w = .ok o) (hs : Pointer.step? w name = some v) :
    ∃ es a, o = some es ∧ (name, a) ∈ es := by
  rcases ok_of_optional h with ⟨rfl, _⟩ | ⟨es, hes, rfl⟩
  · cases hs
  · obtain ⟨fs, rfl, hread⟩ := forall₂_of_named hes
    obtain ⟨⟨_, a⟩, ha, rfl, _⟩ := exists_of_forall₂ hread.flip (Json.mem_of_lookup hs)
    exact ⟨es, a, rfl, ha⟩

theorem exists_of_optional_entries {w v : Json} {o : Option (List (String × α))} {name : String}
    (h : optional (entries decode) w = .ok o) (hs : Pointer.step? w name = some v)
    (hx : isExtension name = false) : ∃ es a, o = some es ∧ (name, a) ∈ es := by
  rcases ok_of_optional h with ⟨rfl, _⟩ | ⟨es, hes, rfl⟩
  · cases hs
  · obtain ⟨fs, rfl, hread⟩ := forall₂_of_entries hes
    have hmem : (name, v) ∈ fs.filter fun f => !isExtension f.1 :=
      List.mem_filter.mpr ⟨Json.mem_of_lookup hs, by simp [hx]⟩
    obtain ⟨⟨_, a⟩, ha, rfl, _⟩ := exists_of_forall₂ hread.flip hmem
    exact ⟨es, a, rfl, ha⟩

/-- Every entry of such a collection stands under its name. -/
theorem find_of_optional_entries {w : Json} {es : List (String × α)} {name : String} {a : α}
    (hk : w.UniqueKeys) (h : optional (entries decode) w = .ok (some es)) (ha : (name, a) ∈ es) :
    isExtension name = false ∧ ∃ v, Pointer.step? w name = some v ∧ decode v = .ok a := by
  rcases ok_of_optional h with ⟨_, heq⟩ | ⟨es', hes, heq⟩
  · cases heq
  · cases heq
    obtain ⟨fs, rfl, _⟩ := forall₂_of_entries hes
    exact (mem_entries_iff hk.nodup hes).mp ha

/-- Entries that are changed after they are read are the entries, changed. -/
theorem optional_entries_map {f : α → β} {v : Json} {o : Option (List (String × α))}
    (h : optional (entries decode) v = .ok o) :
    optional (entries fun v => (decode v).map f) v = .ok (o.map (·.map (Prod.map id f))) := by
  rcases ok_of_optional h with ⟨rfl, rfl⟩ | ⟨es, hes, rfl⟩
  · rfl
  · obtain ⟨fs, rfl, hread⟩ := forall₂_of_entries hes
    have hmap : entries (fun v => (decode v).map f) (.object fs)
        = .ok (es.map (Prod.map id f)) := by
      refine entries_of_forall₂ (List.forall₂_map_right_iff.mpr (hread.imp fun e e' he => ?_))
      exact ⟨he.1, congrArg (Except.map f) he.2⟩
    exact congrArg (Except.map some) hmap

end Decoder

/-! ## 3. Records -/

/-- Putting a field into a record keeps a property, where the value under the name of the field is
of some kind. -/
def Field.KeepsFor {α : Type} (P : String → Json → Prop) (f : Field α) (Q : α → Prop) : Prop :=
  ∀ v a a', P f.name v → Q a → f.put v a = .ok a' → Q a'

theorem Field.keepsFor_of {α β : Type} {P : String → Json → Prop} {name : String}
    {decode : Decoder β} {set : β → α → α} {R : β → Prop} {Q : α → Prop}
    (hd : ∀ v x, P name v → decode v = .ok x → R x) (hs : ∀ x a, R x → Q a → Q (set x a)) :
    (Field.of name decode set).KeepsFor P Q := by
  intro v a a' hv ha h
  obtain ⟨x, hx, rfl⟩ := ok_of_map h
  exact hs x a (hd v x hv hx) ha

/-- A field on which a property does not depend keeps it, whatever its value is. -/
theorem Field.keepsFor_other {α β : Type} {P : String → Json → Prop} {name : String}
    {decode : Decoder β} {set : β → α → α} {Q : α → Prop} (hs : ∀ x a, Q a → Q (set x a)) :
    (Field.of name decode set).KeepsFor P Q :=
  keepsFor_of (R := fun _ => True) (fun _ _ _ _ => trivial) fun x a _ => hs x a

theorem Field.keepsFor_needed {α β : Type} {P : String → Json → Prop} {name : String}
    {decode : Decoder β} {set : β → α → α} {Q : α → Prop} (hs : ∀ x a, Q a → Q (set x a)) :
    (Field.needed name decode set).KeepsFor P Q :=
  (keepsFor_other hs : (Field.of name decode set).KeepsFor P Q)

/-- Putting a field into a record keeps a property. -/
def Field.Keeps {α : Type} (f : Field α) (Q : α → Prop) : Prop :=
  ∀ v a a', v.UniqueKeys → Q a → f.put v a = .ok a' → Q a'

theorem Field.keeps_of {α β : Type} {name : String} {decode : Decoder β} {set : β → α → α}
    {R : β → Prop} {Q : α → Prop} (hd : decode.Ensures R) (hs : ∀ x a, R x → Q a → Q (set x a)) :
    (Field.of name decode set).Keeps Q :=
  (keepsFor_of hd hs : (Field.of name decode set).KeepsFor (fun _ v => v.UniqueKeys) Q)

/-- A field on which a property does not depend keeps it. -/
theorem Field.keeps_other {α β : Type} {name : String} {decode : Decoder β} {set : β → α → α}
    {Q : α → Prop} (hs : ∀ x a, Q a → Q (set x a)) : (Field.of name decode set).Keeps Q :=
  (keepsFor_other hs : (Field.of name decode set).KeepsFor (fun _ v => v.UniqueKeys) Q)

theorem Field.keeps_needed {α β : Type} {name : String} {decode : Decoder β} {set : β → α → α}
    {Q : α → Prop} (hs : ∀ x a, Q a → Q (set x a)) : (Field.needed name decode set).Keeps Q :=
  (keeps_other hs : (Field.of name decode set).Keeps Q)

namespace Layout

variable {α : Type} {layout : Layout α} {Q : α → Prop}

theorem keepsFor_putField {P : String → Json → Prop} (hf : ∀ f ∈ layout.fields, f.KeepsFor P Q)
    {entry : String × Json} {a a' : α} (hv : P entry.1 entry.2) (ha : Q a)
    (h : layout.putField a entry = .ok a') : Q a' := by
  unfold putField at h
  split at h
  · rename_i f hfind
    have hname : f.name = entry.1 := by simpa using List.find?_some hfind
    exact hf f (List.mem_of_find?_eq_some hfind) _ _ _ (hname ▸ hv) ha h
  · cases h
    exact ha

theorem keepsFor_putFields {P : String → Json → Prop} (hf : ∀ f ∈ layout.fields, f.KeepsFor P Q) :
    ∀ {entries : List (String × Json)} {a a' : α}, (∀ e ∈ entries, P e.1 e.2) → Q a →
      entries.foldlM layout.putField a = .ok a' → Q a'
  | [], _, _, _, ha, h => by
    cases h
    exact ha
  | e :: rest, _, _, hv, ha, h => by
    rw [List.foldlM_cons] at h
    obtain ⟨b, hb, h⟩ := ok_of_bind h
    exact keepsFor_putFields hf (fun e he => hv e (List.mem_cons_of_mem _ he))
      (keepsFor_putField hf (hv e List.mem_cons_self) ha hb) h

theorem keeps_putItems : ∀ {fields : List (Field α)} {items : List Json} {index : Nat} {a a' : α},
    (∀ f ∈ fields, f.Keeps Q) → (∀ v ∈ items, v.UniqueKeys) → Q a →
      layout.putItems index a fields items = .ok a' → Q a'
  | [], _, _, _, _, _, _, ha, h => by
    cases h
    exact ha
  | f :: fs, [], _, _, _, hf, hv, ha, h => by
    unfold putItems at h
    split at h
    · cases h
    · exact keeps_putItems (fun f hmem => hf f (List.mem_cons_of_mem _ hmem)) hv ha h
  | f :: fs, v :: vs, _, _, _, hf, hv, ha, h => by
    unfold putItems at h
    obtain ⟨b, hb, h⟩ := ok_of_bind h
    exact keeps_putItems (fun f hmem => hf f (List.mem_cons_of_mem _ hmem))
      (fun v hmem => hv v (List.mem_cons_of_mem _ hmem))
      (hf f List.mem_cons_self v _ b (hv v List.mem_cons_self) ha hb) h

/-- What the fields of a record keep holds of a record that is read from an object. -/
theorem of_object {P : String → Json → Prop} {fs : List (String × Json)} {a : α}
    (hstart : Q layout.start) (hf : ∀ f ∈ layout.fields, f.KeepsFor P Q)
    (hv : ∀ e ∈ fs, P e.1 e.2) (h : layout.decode (.object fs) = .ok a) : Q a := by
  obtain ⟨b, hb, h⟩ := ok_of_bind h
  split at h
  · cases h
  · cases h
    exact keepsFor_putFields hf hv hstart hb

/-- **What the fields of a record keep holds of the record.** -/
theorem ensures (hstart : Q layout.start) (hf : ∀ f ∈ layout.fields, f.Keeps Q) :
    Decoder.Ensures layout.decode Q := by
  intro v a hv h
  cases v with
  | object entries =>
    exact of_object (P := fun _ v => v.UniqueKeys) hstart hf (fun e he => hv.field he) h
  | array items =>
    obtain ⟨b, hb, h⟩ := ok_of_bind h
    split at h
    · cases h
    · cases h
      exact keeps_putItems hf (fun v hmem => hv.item hmem) hstart hb
  | null | bool _ | number _ | string _ => cases h

end Layout

/-! ## 4. What stands under a key -/

/-- The object of a record has the fields that the record needs. -/
theorem Layout.exists_of_required {α : Type} {layout : Layout α} {fs : List (String × Json)}
    {a : α} {f : Field α} (hf : f ∈ layout.fields) (hrequired : f.required = true)
    (h : layout.decode (.object fs) = .ok a) : ∃ v, Json.lookup f.name fs = some v := by
  obtain ⟨_, _, h⟩ := ok_of_bind h
  split at h
  · cases h
  · rename_i hnone
    have hmissing := List.find?_eq_none.mp hnone f hf
    rw [hrequired, Bool.true_and, Option.isNone_iff_eq_none] at hmissing
    exact Option.ne_none_iff_exists'.mp hmissing

/-- A field of a name sets a part of the record to what it reads, and a field of any other name
leaves the part alone. -/
def Field.Sets {α β : Type} (f : Field α) (name : String) (get : α → β) (decode : Decoder β) :
    Prop :=
  ∀ v a a', f.put v a = .ok a' → if f.name = name then decode v = .ok (get a') else get a' = get a

section Sets

variable {α β γ : Type} {name other : String} {get : α → β} {decode : Decoder β}

@[simp] theorem Field.name_of {set : β → α → α} : (Field.of name decode set).name = name := rfl

@[simp] theorem Field.name_needed {set : β → α → α} :
    (Field.needed name decode set).name = name := rfl

theorem Field.sets_own {set : β → α → α} (h : ∀ x a, get (set x a) = x) :
    (Field.of name decode set).Sets name get decode := by
  intro v a a' hput
  obtain ⟨x, hx, rfl⟩ := ok_of_map hput
  have hname : (Field.of name decode set).name = name := rfl
  rw [if_pos hname, h]
  exact hx

theorem Field.sets_needed {set : β → α → α} (h : ∀ x a, get (set x a) = x) :
    (Field.needed name decode set).Sets name get decode :=
  (sets_own h : (Field.of name decode set).Sets name get decode)

/-- A field leaves a part of the record alone. -/
def Field.Leaves (f : Field α) (get : α → β) : Prop := ∀ v a a', f.put v a = .ok a' → get a' = get a

theorem Field.leaves_of {read : Decoder γ} {set : γ → α → α} (h : ∀ x a, get (set x a) = get a) :
    (Field.of other read set).Leaves get := by
  intro v a a' hput
  obtain ⟨x, _, rfl⟩ := ok_of_map hput
  exact h x a

theorem Field.leaves_needed {read : Decoder γ} {set : γ → α → α}
    (h : ∀ x a, get (set x a) = get a) : (Field.needed other read set).Leaves get :=
  (leaves_of h : (Field.of other read set).Leaves get)

theorem Field.Leaves.sets {f : Field α} (h : f.Leaves get) (hne : f.name ≠ name) :
    f.Sets name get decode := by
  intro v a a' hput
  rw [if_neg hne]
  exact h v a a' hput

end Sets

namespace Layout

variable {α β : Type} {layout : Layout α} {name : String} {get : α → β} {decode : Decoder β}

/-- A part of a record is read by the field of a name and by no other. -/
structure Reads (layout : Layout α) (name : String) (get : α → β) (decode : Decoder β) : Prop where
  known : ∃ f ∈ layout.fields, f.name = name
  sets : ∀ f ∈ layout.fields, f.Sets name get decode

/-- **A field is read by itself**: what it sets is the part of the record that the other fields
leave alone. -/
theorem Reads.of_field (i : Nat) {f : Field α} (hf : layout.fields[i]? = some f)
    (hname : f.name = name) (hown : f.Sets name get decode)
    (hothers : ∀ f ∈ layout.fields.eraseIdx i, f.name ≠ name ∧ f.Leaves get) :
    layout.Reads name get decode := by
  refine ⟨⟨f, List.mem_of_getElem? hf, hname⟩, fun f' hf' => ?_⟩
  obtain ⟨j, hj⟩ := List.mem_iff_getElem?.mp hf'
  by_cases hij : j = i
  · rw [hij, hf, Option.some.injEq] at hj
    exact hj ▸ hown
  · obtain ⟨hne, hleaves⟩ :=
      hothers f' (List.mem_eraseIdx_iff_getElem?.mpr ⟨j, hij, hj⟩)
    exact hleaves.sets hne

theorem Reads.of_putField (h : layout.Reads name get decode) {entry : String × Json} {a a' : α}
    (hput : layout.putField a entry = .ok a') :
    if entry.1 = name then decode entry.2 = .ok (get a') else get a' = get a := by
  unfold putField at hput
  split at hput
  · rename_i f hfind
    have hname : f.name = entry.1 := by simpa using List.find?_some hfind
    rw [← hname]
    exact h.sets f (List.mem_of_find?_eq_some hfind) _ _ _ hput
  · rename_i hfind
    cases hput
    have hne : entry.1 ≠ name := by
      obtain ⟨f, hf, hname⟩ := h.known
      intro heq
      exact List.find?_eq_none.mp hfind f hf (by simp [hname, heq])
    rw [if_neg hne]

theorem Reads.of_putFields (h : layout.Reads name get decode) :
    ∀ {entries : List (String × Json)} {a r : α}, (entries.map Prod.fst).Nodup →
      entries.foldlM layout.putField a = .ok r →
      (name ∉ entries.map Prod.fst → get r = get a) ∧
        ∀ v, (name, v) ∈ entries → decode v = .ok (get r)
  | [], _, _, _, hr => by
    cases hr
    exact ⟨fun _ => rfl, fun _ hv => absurd hv (by simp)⟩
  | (key, w) :: rest, _, _, hk, hr => by
    rw [List.foldlM_cons] at hr
    obtain ⟨b, hb, hr⟩ := ok_of_bind hr
    rw [List.map_cons, List.nodup_cons] at hk
    have hstep := h.of_putField hb
    obtain ⟨hmissing, hpresent⟩ := h.of_putFields hk.2 hr
    constructor
    · intro hn
      rw [List.map_cons, List.mem_cons, not_or] at hn
      rw [if_neg (Ne.symm hn.1)] at hstep
      rw [hmissing hn.2, hstep]
    · intro v hv
      rcases List.mem_cons.mp hv with heq | hv
      · cases heq
        rw [if_pos rfl] at hstep
        rw [hmissing hk.1]
        exact hstep
      · exact hpresent v hv

/-- **The value under a key is what the field of that name holds**; without the key the field
keeps the value that the record starts with. -/
theorem Reads.of_decode (h : layout.Reads name get decode) {fs : List (String × Json)}
    (hk : (fs.map Prod.fst).Nodup) {r : α} (hr : layout.decode (.object fs) = .ok r) :
    match Json.lookup name fs with
    | some v => decode v = .ok (get r)
    | none => get r = get layout.start := by
  obtain ⟨b, hb, hr⟩ := ok_of_bind hr
  have heq : r = b := by
    split at hr
    · cases hr
    · cases hr
      rfl
  obtain ⟨hmissing, hpresent⟩ := h.of_putFields hk hb
  rw [heq]
  cases hl : Json.lookup name fs with
  | none => exact hmissing ((Json.lookup_eq_none_iff fs).mp hl)
  | some v => exact hpresent v (Json.mem_of_lookup hl)

end Layout

end ApiTypes
