import Mathlib.Data.List.AList
import Mathlib.Tactic

/-!
# Maps with a capacity

A hash map is an association list without repeated keys. `capacity` is `none` for maps that grow.
The order of the entries is the order of iteration, which `reorder` changes at will.
-/

namespace Tendrilix.Bounded

variable {κ ν : Type} [DecidableEq κ]

abbrev Map (κ ν : Type) := AList fun _ : κ => ν

def isFull (capacity : Option ℕ) (m : Map κ ν) : Bool := capacity.any (· ≤ m.keys.length)

def tryInsertEntry (capacity : Option ℕ) (m : Map κ ν) (key : κ) (value : ν) : Option (Map κ ν) :=
  if key ∈ m ∨ ¬isFull capacity m then some (m.insert key value) else none

/-- `try_push` of one item after the other into an empty vector. -/
def collect {α : Type} (capacity : Option ℕ) (items : List α) : Option (List α) :=
  if capacity.any (· < items.length) then none else some items

/-- The entries in the order of `order`, if that lists the keys. -/
def reorder (order : List κ) (m : Map κ ν) : Map κ ν :=
  if order.Perm m.keys then
    order.foldr (fun key acc => (m.lookup key).elim acc (acc.insert key)) ∅
  else m

theorem lookup_replace_self {m : Map κ ν} {key : κ} (value : ν) (h : key ∈ m) :
    (m.replace key value).lookup key = some value := by
  obtain ⟨entries, hnodup⟩ := m
  change key ∈ entries.keys at h
  change (entries.kreplace key value).dlookup key = some value
  clear hnodup
  induction entries with
  | nil => simp at h
  | cons entry entries ih =>
    obtain ⟨k, v⟩ := entry
    by_cases hk : key = k
    · subst hk
      simp [List.kreplace]
    · rw [List.keys_cons, List.mem_cons] at h
      have hrest := ih (h.resolve_left hk)
      simp only [List.kreplace] at hrest ⊢
      rw [List.lookmap_cons_none _ _ (by simp [hk]), List.dlookup_cons_ne _ _ hk, hrest]

theorem lookup_replace_ne {m : Map κ ν} {key other : κ} (value : ν) (h : other ≠ key) :
    (m.replace key value).lookup other = m.lookup other := by
  obtain ⟨entries, hnodup⟩ := m
  change (entries.kreplace key value).dlookup other = entries.dlookup other
  clear hnodup
  induction entries with
  | nil => rfl
  | cons entry entries ih =>
    obtain ⟨k, v⟩ := entry
    by_cases hk : key = k
    · subst hk
      simp only [List.kreplace]
      rw [List.lookmap_cons_some _ _ (by simp : _ = some ⟨key, value⟩), List.dlookup_cons_ne _ _ h,
        List.dlookup_cons_ne _ _ h]
    · simp only [List.kreplace] at ih ⊢
      rw [List.lookmap_cons_none _ _ (by simp [hk])]
      by_cases ho : other = k
      · subst ho
        rw [List.dlookup_cons_eq, List.dlookup_cons_eq]
      · rw [List.dlookup_cons_ne _ _ ho, List.dlookup_cons_ne _ _ ho, ih]

theorem mem_of_lookup {m : Map κ ν} {key : κ} {value : ν} (h : m.lookup key = some value) :
    key ∈ m := AList.lookup_isSome.mp (by rw [h]; rfl)

theorem mem_congr {m m' : Map κ ν} {key : κ} (h : m'.lookup key = m.lookup key) :
    key ∈ m' ↔ key ∈ m := by
  rw [← AList.lookup_isSome, ← AList.lookup_isSome, h]

theorem lookup_foldr_insert (m : Map κ ν) (order : List κ) (key : κ) :
    (order.foldr (fun key acc => (m.lookup key).elim acc (acc.insert key)) ∅ : Map κ ν).lookup key =
      if key ∈ order then m.lookup key else none := by
  induction order with
  | nil => simp
  | cons k order ih =>
    rw [List.foldr_cons]
    cases hk : m.lookup k with
    | none =>
      rw [Option.elim_none, ih]
      by_cases heq : key = k
      · subst heq
        simp [hk]
      · simp [heq]
    | some v =>
      rw [Option.elim_some]
      by_cases heq : key = k
      · subst heq
        simp [hk]
      · rw [AList.lookup_insert_ne heq, ih]
        simp [heq]

@[simp] theorem lookup_reorder (order : List κ) (m : Map κ ν) (key : κ) :
    (reorder order m).lookup key = m.lookup key := by
  rw [reorder]
  split
  · rename_i hperm
    rw [lookup_foldr_insert]
    split
    · rfl
    · rename_i hmem
      rw [hperm.mem_iff, ← AList.mem_keys, ← AList.lookup_eq_none] at hmem
      exact hmem.symm
  · rfl

theorem erase_insert {m : Map κ ν} {key : κ} (value : ν) (h : m.lookup key = none) :
    (m.insert key value).erase key = m := by
  apply AList.ext
  have hnot : key ∉ m.entries.keys := AList.lookup_eq_none.mp h
  rw [AList.insert_of_notMem hnot]
  exact List.kerase_cons_eq rfl

theorem lookup_erase_eq_some_iff {m : Map κ ν} {key other : κ} {value : ν} :
    (m.erase key).lookup other = some value ↔ other ≠ key ∧ m.lookup other = some value := by
  by_cases h : other = key
  · subst h
    simp
  · rw [AList.lookup_erase_ne h]
    simp [h]

theorem lookup_insert_eq_some_iff {m : Map κ ν} {key other : κ} {value value' : ν} :
    (m.insert key value).lookup other = some value' ↔
      (other = key ∧ value' = value) ∨ (other ≠ key ∧ m.lookup other = some value') := by
  by_cases h : other = key
  · subst h
    simp [eq_comm]
  · rw [AList.lookup_insert_ne h]
    simp [h]

theorem lookup_replace_eq_some_iff {m : Map κ ν} {key other : κ} {value value' : ν} (h : key ∈ m) :
    (m.replace key value).lookup other = some value' ↔
      (other = key ∧ value' = value) ∨ (other ≠ key ∧ m.lookup other = some value') := by
  by_cases hkey : other = key
  · subst hkey
    rw [lookup_replace_self value h]
    simp [eq_comm]
  · rw [lookup_replace_ne value hkey]
    simp [hkey]

theorem tryInsertEntry_eq_some {capacity : Option ℕ} {m m' : Map κ ν} {key : κ} {value : ν}
    (h : tryInsertEntry capacity m key value = some m') : m' = m.insert key value := by
  rw [tryInsertEntry] at h
  split at h
  · exact (Option.some.inj h).symm
  · cases h

theorem tryInsertEntry_of_keys {capacity : Option ℕ} {m m₂ m' : Map κ ν} (hkeys : m₂.keys = m.keys)
    {key : κ} {value : ν} (h : tryInsertEntry capacity m key value = some m') (value₂ : ν) :
    ∃ m₂', tryInsertEntry capacity m₂ key value₂ = some m₂' ∧ m₂'.keys = m'.keys := by
  obtain rfl := tryInsertEntry_eq_some h
  refine ⟨m₂.insert key value₂, ?_, by rw [AList.keys_insert, AList.keys_insert, hkeys]⟩
  have hfits : key ∈ m₂ ∨ ¬isFull capacity m₂ = true := by
    rw [tryInsertEntry] at h
    split at h
    · rename_i hfits
      rwa [AList.mem_keys, isFull, ← hkeys, ← AList.mem_keys, ← isFull] at hfits
    · cases h
  rw [tryInsertEntry, if_pos hfits]

theorem mem_of_tryInsertEntry_eq_none {capacity : Option ℕ} {m : Map κ ν} {key : κ} {value : ν}
    (h : tryInsertEntry capacity m key value = none) : m.lookup key = none := by
  rw [tryInsertEntry] at h
  split at h
  · cases h
  · rename_i hfull
    rw [AList.lookup_eq_none]
    exact fun hmem => hfull (.inl hmem)

theorem keys_foldr_insert (m : Map κ ν) {order : List κ} (hnodup : order.Nodup)
    (hmem : ∀ key ∈ order, key ∈ m) :
    (order.foldr (fun key acc => (m.lookup key).elim acc (acc.insert key)) ∅ : Map κ ν).keys =
      order := by
  induction order with
  | nil => rfl
  | cons k order ih =>
    rw [List.nodup_cons] at hnodup
    have hrest := ih hnodup.2 fun key hkey => hmem key (by simp [hkey])
    obtain ⟨v, hv⟩ := Option.isSome_iff_exists.mp (AList.lookup_isSome.mpr (hmem k (by simp)))
    rw [List.foldr_cons, hv, Option.elim_some, AList.keys_insert, hrest,
      List.erase_of_not_mem hnodup.1]

theorem keys_reorder {order : List κ} {m : Map κ ν} (h : order.Perm m.keys) :
    (reorder order m).keys = order := by
  rw [reorder, if_pos h]
  exact keys_foldr_insert m (h.nodup_iff.mpr m.keys_nodup) fun key hkey => h.mem_iff.mp hkey

theorem keys_reorder_perm (order : List κ) (m : Map κ ν) : (reorder order m).keys.Perm m.keys := by
  by_cases h : order.Perm m.keys
  · rw [keys_reorder h]
    exact h
  · rw [reorder, if_neg h]

theorem mem_reorder {order : List κ} {m : Map κ ν} {key : κ} : key ∈ reorder order m ↔ key ∈ m :=
  mem_congr (lookup_reorder order m key)

end Tendrilix.Bounded
