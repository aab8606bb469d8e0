import Tendrilix.Machine
import Tendrilix.XorLinear

/-!
# Peer indexes

Indexes come from a 24-bit Galois shift register. The register runs through every non-zero value
before it repeats one, so the indexes are distinct until all of them are used.
-/

namespace Tendrilix

open XorLinear

namespace IndexGenerator

def lfsrMax : ℕ := 0x00ffffff

def lfsrPoly : ℕ := 0x00d80000

end IndexGenerator

open IndexGenerator in
structure IndexGenerator where
  lfsr : ℕ
  remaining : ℕ
  mask : ℕ
  lfsr_lt : lfsr < 2 ^ 24
  remaining_le : remaining ≤ lfsrMax
  mask_le : mask ≤ lfsrMax

namespace IndexGenerator

theorem lfsrMax_eq : lfsrMax = 2 ^ 24 - 1 := by decide

def new : IndexGenerator := ⟨0, lfsrMax, 0, by decide, le_rfl, by decide⟩

abbrev RandomIndex := { n : ℕ // n ≠ 0 ∧ n ≤ lfsrMax }

def initializeWith (g : IndexGenerator) (seed mask : RandomIndex) : IndexGenerator :=
  if g.lfsr ≠ 0 then g
  else ⟨seed, g.remaining, mask, Nat.lt_of_le_of_lt seed.2.2 (by decide), g.remaining_le, mask.2.2⟩

def step (state : ℕ) : ℕ :=
  (state >>> 1) ^^^ ((2 ^ 32 - (state &&& 1)) % 2 ^ 32 &&& lfsrPoly)

theorem step_eq (state : ℕ) :
    step state = (state >>> 1) ^^^ (if state.testBit 0 then lfsrPoly else 0) := by
  rw [step]
  congr 1
  rw [Nat.and_one_is_mod, Nat.testBit_zero]
  rcases Nat.mod_two_eq_zero_or_one state with h | h
  · simp [h]
  · simp only [h]
    decide

theorem step_lt {v : ℕ} (hv : v < 2 ^ 24) : step v < 2 ^ 24 := by
  rw [step_eq]
  apply Nat.xor_lt_two_pow
  · rw [Nat.shiftRight_eq_div_pow]
    omega
  · split
    · decide
    · decide

def indexOf (mask current : ℕ) : ℕ :=
  let index := ((current - 1) ^^^ mask) &&& lfsrMax
  if index = 0 then lfsrMax ^^^ mask else index

def newIndex (g : IndexGenerator) : Call (ℕ × IndexGenerator) :=
  if g.lfsr = 0 then .error .notInitialized
  else if g.remaining = 0 then .error .indexesExhausted
  else .ok (indexOf g.mask g.lfsr,
    ⟨step g.lfsr, g.remaining - 1, g.mask, step_lt g.lfsr_lt,
      (Nat.sub_le _ _).trans g.remaining_le, g.mask_le⟩)

def indexes : ℕ → IndexGenerator → List ℕ
  | 0, _ => []
  | n + 1, g =>
    match g.newIndex with
    | .ok (index, g') => index :: indexes n g'
    | .error _ => []

/-! ### The period of the register -/

theorem step_linear : Linear step := by
  intro u v
  simp only [step_eq, Nat.shiftRight_xor_distrib, Nat.testBit_xor]
  rw [xor_shuffle]
  congr 1
  cases u.testBit 0 <;> cases v.testBit 0 <;> simp

theorem step_represents : Represents 24 (images step 24) step where
  eq := fun _ hv => (step_linear.apply_images hv).symm
  lt := fun _ hv => step_lt hv

theorem step_pos {v : ℕ} (hv : v < 2 ^ 24) (hpos : v ≠ 0) : step v ≠ 0 := by
  intro hzero
  rw [step_eq] at hzero
  have heq := eq_of_xor_eq_zero hzero
  rw [Nat.shiftRight_eq_div_pow] at heq
  split at heq
  · -- The taps include the highest bit, which the shifted state does not have.
    have : lfsrPoly = 0x00d80000 := rfl
    omega
  · rename_i hbit
    rw [Nat.testBit_zero] at hbit
    have : v % 2 ≠ 1 := by simpa using hbit
    omega

theorem prime_dvd_lfsrMax {p : ℕ} (hp : p.Prime) (h : p ∣ lfsrMax) :
    p = 3 ∨ p = 5 ∨ p = 7 ∨ p = 13 ∨ p = 17 ∨ p = 241 := by
  have hfactor : lfsrMax = 3 * 3 * 5 * 7 * 13 * 17 * 241 := by decide
  rw [hfactor] at h
  have hcases : ∀ q, q.Prime → p ∣ q → p = q := fun q hq => (Nat.prime_dvd_prime_iff_eq hp hq).mp
  simp only [hp.dvd_mul] at h
  rcases h with (((((h | h) | h) | h) | h) | h) | h
  · exact .inl (hcases 3 (by norm_num) h)
  · exact .inl (hcases 3 (by norm_num) h)
  · exact .inr (.inl (hcases 5 (by norm_num) h))
  · exact .inr (.inr (.inl (hcases 7 (by norm_num) h)))
  · exact .inr (.inr (.inr (.inl (hcases 13 (by norm_num) h))))
  · exact .inr (.inr (.inr (.inr (.inl (hcases 17 (by norm_num) h)))))
  · exact .inr (.inr (.inr (.inr (.inr (hcases 241 (by norm_num) h)))))

theorem minimalPeriod_one : Function.minimalPeriod step 1 = lfsrMax := by
  have hpower (n : ℕ) (hn : n < 2 ^ 24) : step^[n] 1 = power 24 n (images step 24) 1 :=
    (step_represents.power_eq hn (by decide)).symm
  apply minimalPeriod_eq
  · rw [hpower _ (by decide)]
    decide +kernel
  · intro p hp hdvd
    rcases prime_dvd_lfsrMax hp hdvd with rfl | rfl | rfl | rfl | rfl | rfl <;>
      (rw [hpower _ (by decide)]; decide +kernel)

theorem iterate_step_bounds {seed : ℕ} (hlt : seed < 2 ^ 24) (hpos : seed ≠ 0) (n : ℕ) :
    step^[n] seed < 2 ^ 24 ∧ step^[n] seed ≠ 0 := by
  induction n with
  | zero => exact ⟨hlt, hpos⟩
  | succ n ih =>
    rw [Function.iterate_succ_apply']
    exact ⟨step_lt ih.1, step_pos ih.1 ih.2⟩

theorem exists_iterate_eq {v : ℕ} (hlt : v < 2 ^ 24) (hpos : v ≠ 0) : ∃ n, step^[n] 1 = v := by
  have hinj := Function.iterate_injOn_Iio_minimalPeriod (f := step) (x := 1)
  rw [minimalPeriod_one] at hinj
  have hsub : (Finset.range lfsrMax).image (fun n => step^[n] 1) ⊆ Finset.Icc 1 lfsrMax := by
    intro u hu
    obtain ⟨n, -, rfl⟩ := Finset.mem_image.mp hu
    have hone : 1 < 2 ^ 24 := by decide
    obtain ⟨hu, hu'⟩ := iterate_step_bounds hone (by decide) n
    rw [Finset.mem_Icc, lfsrMax]
    omega
  have hcard : (Finset.Icc 1 lfsrMax).card ≤
      ((Finset.range lfsrMax).image fun n => step^[n] 1).card := by
    rw [Finset.card_image_of_injOn (by simpa [Set.InjOn] using hinj), Finset.card_range,
      Nat.card_Icc, Nat.add_sub_cancel]
  have hmem : v ∈ (Finset.range lfsrMax).image fun n => step^[n] 1 := by
    rw [Finset.eq_of_subset_of_card_le hsub hcard, Finset.mem_Icc, lfsrMax]
    omega
  obtain ⟨n, -, hn⟩ := Finset.mem_image.mp hmem
  exact ⟨n, hn⟩

theorem minimalPeriod_step {v : ℕ} (hlt : v < 2 ^ 24) (hpos : v ≠ 0) :
    Function.minimalPeriod step v = lfsrMax := by
  obtain ⟨n, rfl⟩ := exists_iterate_eq hlt hpos
  have hperiodic : (1 : ℕ) ∈ Function.periodicPts step := by
    apply Function.minimalPeriod_pos_iff_mem_periodicPts.mp
    rw [minimalPeriod_one]
    decide
  rw [Function.minimalPeriod_apply_iterate hperiodic, minimalPeriod_one]

def unmasked (mask current : ℕ) : ℕ := if current - 1 = mask then lfsrMax else current - 1

theorem indexOf_eq {mask c : ℕ} (hmask : mask ≤ lfsrMax) (hlt : c < 2 ^ 24) :
    indexOf mask c = unmasked mask c ^^^ mask := by
  have hmax := lfsrMax_eq
  have hxor : (c - 1) ^^^ mask < 2 ^ 24 := by
    apply Nat.xor_lt_two_pow
    · omega
    · omega
  rw [indexOf, unmasked, hmax, Nat.and_two_pow_sub_one_eq_mod, Nat.mod_eq_of_lt hxor]
  by_cases heq : c - 1 = mask
  · simp [heq]
  · have hne : (c - 1) ^^^ mask ≠ 0 := fun h => heq (eq_of_xor_eq_zero h)
    simp [heq, hne]

theorem indexOf_bounds {mask c : ℕ} (hmask : mask ≤ lfsrMax) (hlt : c < 2 ^ 24) :
    indexOf mask c ≠ 0 ∧ indexOf mask c < 2 ^ 24 := by
  have hmax := lfsrMax_eq
  have hvalue : unmasked mask c ≠ mask ∧ unmasked mask c < 2 ^ 24 := by
    rw [unmasked]
    split
    · omega
    · omega
  rw [indexOf_eq hmask hlt]
  constructor
  · intro hzero
    exact hvalue.1 (eq_of_xor_eq_zero hzero)
  · apply Nat.xor_lt_two_pow hvalue.2
    omega

theorem indexOf_injective {mask c d : ℕ} (hmask : mask ≤ lfsrMax) (hc : c ≠ 0) (hclt : c < 2 ^ 24)
    (hd : d ≠ 0) (hdlt : d < 2 ^ 24) (h : indexOf mask c = indexOf mask d) : c = d := by
  have hmax := lfsrMax_eq
  rw [indexOf_eq hmask hclt, indexOf_eq hmask hdlt] at h
  have hvalue : unmasked mask c = unmasked mask d := by
    have hcancel := congrArg (· ^^^ mask) h
    simpa [Nat.xor_assoc] using hcancel
  rw [unmasked, unmasked] at hvalue
  split at hvalue <;> split at hvalue <;> omega

/-! ### Distinct indexes -/

theorem newIndex_ok {g g' : IndexGenerator} {index : ℕ} (call : g.newIndex = .ok (index, g')) :
    g.lfsr ≠ 0 ∧ index = indexOf g.mask g.lfsr ∧ g'.lfsr = step g.lfsr ∧ g'.mask = g.mask ∧
      g'.remaining + 1 = g.remaining := by
  rw [newIndex] at call
  split at call
  · cases call
  split at call
  · cases call
  · cases call
    refine ⟨by assumption, rfl, rfl, rfl, ?_⟩
    dsimp only
    omega

theorem indexes_eq {g : IndexGenerator} (h : g.lfsr ≠ 0) (n : ℕ) :
    g.indexes n =
      (List.range (min n g.remaining)).map fun i => indexOf g.mask (step^[i] g.lfsr) := by
  induction n generalizing g with
  | zero => simp [indexes]
  | succ n ih =>
    rw [indexes]
    cases hcall : g.newIndex with
    | error f =>
      have hzero : g.remaining = 0 := by
        rw [newIndex, if_neg h] at hcall
        split at hcall
        · assumption
        · cases hcall
      simp [hzero]
    | ok next =>
      obtain ⟨index, g'⟩ := next
      obtain ⟨-, hindex, hlfsr, hmask, hremaining⟩ := newIndex_ok hcall
      have hmin : min (n + 1) g.remaining = min n g'.remaining + 1 := by omega
      have hrunning : g'.lfsr ≠ 0 := by
        rw [hlfsr]
        exact step_pos g.lfsr_lt h
      dsimp only
      rw [ih hrunning, hmin, List.range_succ_eq_map, List.map_cons, List.map_map, hindex, hlfsr,
        hmask]
      rfl

theorem indexes_nodup (g : IndexGenerator) (n : ℕ) : (g.indexes n).Nodup := by
  by_cases h : g.lfsr = 0
  · cases n with
    | zero => exact List.nodup_nil
    | succ n =>
      rw [indexes, newIndex, if_pos h]
      exact List.nodup_nil
  rw [indexes_eq h]
  apply List.Nodup.map_on _ List.nodup_range
  intro i hi j hj heq
  rw [List.mem_range] at hi hj
  obtain ⟨hilt, hipos⟩ := iterate_step_bounds g.lfsr_lt h i
  obtain ⟨hjlt, hjpos⟩ := iterate_step_bounds g.lfsr_lt h j
  have hstate := indexOf_injective g.mask_le hipos hilt hjpos hjlt heq
  have hremaining := g.remaining_le
  apply Function.iterate_injOn_Iio_minimalPeriod (f := step) (x := g.lfsr) _ _ hstate
  · rw [minimalPeriod_step g.lfsr_lt h, Set.mem_Iio]
    omega
  · rw [minimalPeriod_step g.lfsr_lt h, Set.mem_Iio]
    omega

/-! ### Until the indexes are used up -/

def calls (n : ℕ) (g : IndexGenerator) : Call (List ℕ × IndexGenerator) :=
  Machine.run (fun g (_ : Unit) => g.newIndex) g (List.replicate n ())

theorem calls_succ (n : ℕ) (g : IndexGenerator) :
    g.calls (n + 1) = do
      let (index, g) ← g.newIndex
      let (indexes, g) ← g.calls n
      return (index :: indexes, g) := rfl

theorem newIndex_of_remaining {g : IndexGenerator} (h : g.lfsr ≠ 0) (hremaining : g.remaining ≠ 0) :
    ∃ index g', g.newIndex = .ok (index, g') ∧ g'.lfsr ≠ 0 ∧ g'.remaining + 1 = g.remaining := by
  rw [newIndex, if_neg h, if_neg hremaining]
  refine ⟨_, _, rfl, step_pos g.lfsr_lt h, ?_⟩
  dsimp only
  omega

theorem calls_of_remaining {g : IndexGenerator} (h : g.lfsr ≠ 0) {n : ℕ} (hn : n ≤ g.remaining) :
    ∃ g', g.calls n = .ok (g.indexes n, g') ∧ g'.lfsr ≠ 0 ∧ g'.remaining + n = g.remaining := by
  induction n generalizing g with
  | zero => exact ⟨g, rfl, h, rfl⟩
  | succ n ih =>
    obtain ⟨index, g₁, hcall, hlfsr, hremaining⟩ := newIndex_of_remaining h (by omega)
    obtain ⟨g', hcalls, hlfsr', hremaining'⟩ := ih hlfsr (by omega)
    refine ⟨g', ?_, hlfsr', by omega⟩
    rw [calls_succ, indexes, hcall, ok_bind]
    dsimp only
    rw [hcalls]
    rfl

theorem initializeWith_new (seed mask : RandomIndex) :
    (new.initializeWith seed mask).lfsr = seed ∧
      (new.initializeWith seed mask).remaining = lfsrMax := ⟨rfl, rfl⟩

theorem initializeWith_seeded (g : IndexGenerator) (seed mask : RandomIndex) :
    (g.initializeWith seed mask).lfsr ≠ 0 := by
  rw [initializeWith]
  split
  · assumption
  · exact seed.2.1

theorem newIndex_seeded {g g' : IndexGenerator} {index : ℕ} (h : g.newIndex = .ok (index, g')) :
    g'.lfsr ≠ 0 := by
  obtain ⟨hseeded, -, hlfsr, -⟩ := newIndex_ok h
  rw [hlfsr]
  exact step_pos g.lfsr_lt hseeded

theorem exists_newIndex {g : IndexGenerator} (hseeded : g.lfsr ≠ 0) (hleft : g.remaining ≠ 0) :
    ∃ index g', g.newIndex = .ok (index, g') := by
  rw [newIndex, if_neg hseeded, if_neg hleft]
  exact ⟨_, _, rfl⟩

theorem mem_of_nodup {indexes : List ℕ} (hnodup : indexes.Nodup)
    (hbounds : ∀ index ∈ indexes, index ≠ 0 ∧ index < 2 ^ 24) (hlength : indexes.length = lfsrMax)
    {v : ℕ} (hpos : v ≠ 0) (hlt : v < 2 ^ 24) : v ∈ indexes := by
  have hmax := lfsrMax_eq
  have hsub : indexes.toFinset ⊆ Finset.Icc 1 lfsrMax := by
    intro index hindex
    obtain ⟨hne, hlt⟩ := hbounds index (List.mem_toFinset.mp hindex)
    rw [Finset.mem_Icc]
    omega
  have hcard : (Finset.Icc 1 lfsrMax).card ≤ indexes.toFinset.card := by
    rw [List.toFinset_card_of_nodup hnodup, hlength, Nat.card_Icc, Nat.add_sub_cancel]
  rw [← List.mem_toFinset, Finset.eq_of_subset_of_card_le hsub hcard, Finset.mem_Icc]
  omega

/-- From any seed and mask, the first `2 ^ 24 - 1` calls return every non-zero value below `2 ^ 24`
exactly once. The next call panics. -/
theorem initialized_calls_exhaust (seed mask : RandomIndex) :
    ∃ indexes g', (new.initializeWith seed mask).calls (2 ^ 24 - 1) = .ok (indexes, g') ∧
      indexes.length = 2 ^ 24 - 1 ∧ indexes.Nodup ∧ (∀ v, v ∈ indexes ↔ v ≠ 0 ∧ v < 2 ^ 24) ∧
      g'.newIndex = .error .indexesExhausted := by
  obtain ⟨hlfsr, hremaining⟩ := initializeWith_new seed mask
  have hrunning : (new.initializeWith seed mask).lfsr ≠ 0 := hlfsr ▸ seed.2.1
  rw [← lfsrMax_eq]
  generalize new.initializeWith seed mask = g at hlfsr hremaining hrunning
  obtain ⟨g', hcalls, hrunning', hused⟩ := calls_of_remaining hrunning hremaining.ge
  have hindexes := indexes_eq hrunning lfsrMax
  have hlength : (g.indexes lfsrMax).length = lfsrMax := by
    rw [hindexes, List.length_map, List.length_range, hremaining, min_self]
  have hbounds : ∀ v ∈ g.indexes lfsrMax, v ≠ 0 ∧ v < 2 ^ 24 := by
    intro v hv
    rw [hindexes] at hv
    obtain ⟨i, -, rfl⟩ := List.mem_map.mp hv
    exact indexOf_bounds g.mask_le (iterate_step_bounds g.lfsr_lt hrunning i).1
  have hnodup := g.indexes_nodup lfsrMax
  refine ⟨_, g', hcalls, hlength, hnodup, fun v => ⟨hbounds v, ?_⟩, ?_⟩
  · rintro ⟨hpos, hlt⟩
    exact mem_of_nodup hnodup hbounds hlength hpos hlt
  · have hnone : g'.remaining = 0 := by omega
    rw [newIndex, if_neg hrunning', if_pos hnone]

end IndexGenerator

end Tendrilix
