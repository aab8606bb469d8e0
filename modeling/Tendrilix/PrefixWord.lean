import Tendrilix.Fault

/-!
# Prefix words

An address of a family of width `w` is a `BitVec w`; bits are counted from the most significant
one. `Agree n x y` says that two words share their first `n` bits, and every later statement
about prefixes is phrased with it.
-/

namespace Tendrilix.PrefixWord

variable {w : ℕ}

def bitAt (x : BitVec w) (index : ℕ) : Bool :=
  (x >>> (w - 1 - index)) &&& 1#w == 1#w

def mask (x : BitVec w) (prefixLen : ℕ) : BitVec w :=
  if prefixLen = 0 then 0#w
  else if prefixLen = w then x
  else
    let hostBits := w - prefixLen
    let hostMask := (1#w <<< hostBits) - 1#w
    x &&& ~~~hostMask

def Agree (n : ℕ) (x y : BitVec w) : Prop := ∀ i < n, x.getMsbD i = y.getMsbD i

instance (n : ℕ) (x y : BitVec w) : Decidable (Agree n x y) :=
  inferInstanceAs (Decidable (∀ i < n, x.getMsbD i = y.getMsbD i))

theorem bitAt_eq {x : BitVec w} {i : ℕ} (hi : i < w) : bitAt x i = x.getMsbD i := by
  have hw : 0 < w := by omega
  have hand : (x >>> (w - 1 - i)) &&& 1#w = if x.getLsbD (w - 1 - i) then 1#w else 0#w := by
    apply BitVec.eq_of_getLsbD_eq
    intro j hj
    by_cases h0 : j = 0
    · subst h0
      by_cases hx : x.getLsbD (w - 1 - i) <;> simp [hx, hw]
    · by_cases hx : x.getLsbD (w - 1 - i) <;> simp [hx, BitVec.getLsbD_one, h0]
  have hne : (0#w == 1#w) = false := by
    simp only [beq_eq_false_iff_ne, ne_eq, BitVec.toNat_eq, BitVec.toNat_ofNat]
    rw [Nat.one_mod_two_pow hw]
    simp
  rw [bitAt, hand, BitVec.getMsbD_eq_getLsbD]
  by_cases hx : x.getLsbD (w - 1 - i) <;> simp [hx, hi, hne]

theorem getLsbD_hostMask {h : ℕ} (hh : h < w) (i : ℕ) :
    ((1#w <<< h) - 1#w).getLsbD i = decide (i < h) := by
  have hw : 0 < w := by omega
  have hp : 2 ^ h < 2 ^ w := Nat.pow_lt_pow_right (by omega) hh
  have hpos : 0 < 2 ^ h := Nat.two_pow_pos h
  have hval : ((1#w <<< h) - 1#w).toNat = 2 ^ h - 1 := by
    rw [BitVec.toNat_sub, BitVec.toNat_shiftLeft, BitVec.toNat_ofNat, Nat.one_mod_two_pow hw,
      Nat.one_shiftLeft, Nat.mod_eq_of_lt hp]
    have he : 2 ^ w - 1 + 2 ^ h = (2 ^ h - 1) + 2 ^ w := by omega
    rw [he, Nat.add_mod_right, Nat.mod_eq_of_lt (by omega)]
  rw [BitVec.getLsbD, hval, Nat.testBit_two_pow_sub_one]

theorem getMsbD_mask {x : BitVec w} {n : ℕ} (hn : n ≤ w) (i : ℕ) :
    (mask x n).getMsbD i = (decide (i < n) && x.getMsbD i) := by
  unfold mask
  split_ifs with h0 hw
  · simp [h0]
  · subst hw
    by_cases hi : i < n
    · simp [hi]
    · simp [hi, BitVec.getMsbD_of_ge x i (by omega)]
  · rw [BitVec.getMsbD_and, BitVec.getMsbD_not, BitVec.getMsbD_eq_getLsbD (_ - _),
      getLsbD_hostMask (by omega)]
    by_cases hi : i < w
    · by_cases hin : i < n
      · have : ¬ w - 1 - i < w - n := by omega
        simp [hi, hin, this]
      · have : w - 1 - i < w - n := by omega
        simp [hi, hin, this]
    · simp [BitVec.getMsbD_of_ge x i (by omega)]

theorem Agree.refl (n : ℕ) (x : BitVec w) : Agree n x x := fun _ _ => rfl

theorem Agree.symm {n : ℕ} {x y : BitVec w} (h : Agree n x y) : Agree n y x :=
  fun i hi => (h i hi).symm

theorem Agree.trans {n : ℕ} {x y z : BitVec w} (h₁ : Agree n x y) (h₂ : Agree n y z) :
    Agree n x z := fun i hi => (h₁ i hi).trans (h₂ i hi)

theorem Agree.mono {m n : ℕ} {x y : BitVec w} (h : Agree n x y) (hm : m ≤ n) : Agree m x y :=
  fun i hi => h i (by omega)

theorem agree_zero (x y : BitVec w) : Agree 0 x y := fun i hi => by omega

theorem Agree.succ {n : ℕ} {x y : BitVec w} (h : Agree n x y)
    (hb : x.getMsbD n = y.getMsbD n) : Agree (n + 1) x y := by
  intro i hi
  rcases Nat.lt_succ_iff_lt_or_eq.mp hi with hlt | rfl
  · exact h i hlt
  · exact hb

theorem agree_mask {x : BitVec w} {n m : ℕ} (hn : n ≤ w) (hm : m ≤ n) : Agree m (mask x n) x := by
  intro i hi
  rw [getMsbD_mask hn]
  simp [show i < n by omega]

theorem mask_congr {x y : BitVec w} {n : ℕ} (hn : n ≤ w) (h : Agree n x y) :
    mask x n = mask y n := by
  apply BitVec.eq_of_getMsbD_eq
  intro i _
  rw [getMsbD_mask hn, getMsbD_mask hn]
  by_cases hi : i < n
  · simp [hi, h i hi]
  · simp [hi]

theorem mask_mask {x : BitVec w} {n : ℕ} (hn : n ≤ w) : mask (mask x n) n = mask x n :=
  mask_congr hn (agree_mask hn le_rfl)

theorem mask_eq_iff {x y : BitVec w} {n : ℕ} (hn : n ≤ w) (hy : mask y n = y) :
    mask x n = y ↔ Agree n y x := by
  constructor
  · rintro rfl
    exact agree_mask hn le_rfl
  · intro h
    rw [← hy]
    exact (mask_congr hn h).symm

end Tendrilix.PrefixWord
