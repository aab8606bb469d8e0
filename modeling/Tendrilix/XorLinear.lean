import Mathlib.Dynamics.PeriodicPts.Lemmas
import Mathlib.Tactic

/-!
# Linear maps on words

A map that respects exclusive or is determined by the images of the powers of two. With these
images in a list, a high iterate of the map is computed by repeated squaring, and its minimal
period at a point is decided by finitely many iterates.
-/

namespace Tendrilix.XorLinear

def apply : List ℕ → ℕ → ℕ
  | [], _ => 0
  | image :: images, v => (if v.testBit 0 then image else 0) ^^^ apply images (v >>> 1)

def images (f : ℕ → ℕ) (width : ℕ) : List ℕ := (List.range width).map fun i => f (2 ^ i)

def power : ℕ → ℕ → List ℕ → ℕ → ℕ
  | 0, _, _, v => v
  | fuel + 1, n, l, v => power fuel (n / 2) (l.map (apply l)) (if n % 2 = 1 then apply l v else v)

theorem xor_shuffle (a b c d : ℕ) : (a ^^^ b) ^^^ (c ^^^ d) = (a ^^^ c) ^^^ (b ^^^ d) := by
  rw [Nat.xor_assoc, Nat.xor_assoc, ← Nat.xor_assoc b c d, Nat.xor_comm b c, Nat.xor_assoc c b d]

theorem eq_of_xor_eq_zero {a b : ℕ} (h : a ^^^ b = 0) : a = b := by
  have hb := congrArg (· ^^^ b) h
  simpa [Nat.xor_assoc] using hb

theorem apply_xor (l : List ℕ) (u v : ℕ) : apply l (u ^^^ v) = apply l u ^^^ apply l v := by
  induction l generalizing u v with
  | nil => simp [apply]
  | cons image l ih =>
    simp only [apply, Nat.testBit_xor, Nat.shiftRight_xor_distrib, ih]
    rw [xor_shuffle]
    congr 1
    cases u.testBit 0 <;> cases v.testBit 0 <;> simp

theorem apply_zero (l : List ℕ) : apply l 0 = 0 := by
  induction l with
  | nil => rfl
  | cons image l ih => simp [apply, ih]

theorem apply_map (l m : List ℕ) (v : ℕ) : apply (l.map (apply m)) v = apply m (apply l v) := by
  induction l generalizing v with
  | nil => exact (apply_zero m).symm
  | cons image l ih =>
    simp only [List.map_cons, apply, ih, apply_xor]
    congr 1
    split
    · rfl
    · exact (apply_zero m).symm

def Linear (f : ℕ → ℕ) : Prop := ∀ u v, f (u ^^^ v) = f u ^^^ f v

theorem Linear.zero {f : ℕ → ℕ} (h : Linear f) : f 0 = 0 := by
  have h0 := h 0 0
  simpa using h0

theorem bit_split (v : ℕ) : v = (if v.testBit 0 then 1 else 0) ^^^ 2 * (v >>> 1) := by
  apply Nat.eq_of_testBit_eq
  intro i
  have hshift : 2 * (v >>> 1) = (v >>> 1) <<< 1 := by rw [Nat.shiftLeft_eq, Nat.mul_comm, pow_one]
  rw [hshift, Nat.testBit_xor, Nat.testBit_shiftLeft, Nat.testBit_shiftRight]
  cases i with
  | zero => cases v.testBit 0 <;> simp
  | succ i =>
    have hbit : (if v.testBit 0 = true then 1 else 0).testBit (i + 1) = false := by
      split <;> simp [Nat.testBit_succ]
    rw [hbit]
    simp [Nat.add_comm]

theorem Linear.apply_images {f : ℕ → ℕ} (h : Linear f) {width v : ℕ} (hv : v < 2 ^ width) :
    apply (images f width) v = f v := by
  induction width generalizing f v with
  | zero =>
    have hzero : v = 0 := by omega
    rw [hzero, h.zero]
    rfl
  | succ width ih =>
    have hdouble : Linear fun u => f (2 * u) := by
      intro a b
      have hmul : 2 * (a ^^^ b) = 2 * a ^^^ 2 * b := by
        simpa [Nat.shiftLeft_eq, Nat.mul_comm] using Nat.shiftLeft_xor_distrib (i := 1) (a := a) (b := b)
      simp only [hmul, h (2 * a) (2 * b)]
    have hshift : v >>> 1 < 2 ^ width := by
      rw [Nat.shiftRight_eq_div_pow]
      omega
    have htail : ((List.range width).map Nat.succ).map (fun i => f (2 ^ i)) =
        images (fun u => f (2 * u)) width := by
      rw [images, List.map_map]
      apply List.map_congr_left
      intro i _
      simp only [Function.comp, pow_succ, Nat.mul_comm]
    rw [images, List.range_succ_eq_map, List.map_cons, apply, htail, ih hdouble hshift]
    conv_rhs => rw [bit_split v, h]
    congr 1
    split
    · rfl
    · exact h.zero.symm

structure Represents (width : ℕ) (l : List ℕ) (f : ℕ → ℕ) : Prop where
  eq : ∀ v < 2 ^ width, f v = apply l v
  lt : ∀ v < 2 ^ width, f v < 2 ^ width

theorem Represents.square {width : ℕ} {l : List ℕ} {f : ℕ → ℕ} (h : Represents width l f) :
    Represents width (l.map (apply l)) (f^[2]) where
  eq := by
    intro v hv
    rw [apply_map, ← h.eq v hv, ← h.eq _ (h.lt v hv)]
    rfl
  lt := fun v hv => h.lt _ (h.lt v hv)

theorem Represents.power_eq {width : ℕ} {l : List ℕ} {f : ℕ → ℕ} (h : Represents width l f)
    {fuel n v : ℕ} (hn : n < 2 ^ fuel) (hv : v < 2 ^ width) : power fuel n l v = f^[n] v := by
  induction fuel generalizing n l f v with
  | zero =>
    have hzero : n = 0 := by omega
    rw [hzero]
    rfl
  | succ fuel ih =>
    have hhalf : n / 2 < 2 ^ fuel := by omega
    have hiter : f^[n] v = (f^[2])^[n / 2] (f^[n % 2] v) := by
      rw [← Function.iterate_mul, ← Function.iterate_add_apply, Nat.div_add_mod]
    rw [power, hiter]
    rcases Nat.mod_two_eq_zero_or_one n with hmod | hmod
    · rw [hmod, if_neg (by decide)]
      exact ih h.square hhalf hv
    · rw [hmod, if_pos rfl, ← h.eq v hv]
      exact ih h.square hhalf (h.lt v hv)

theorem minimalPeriod_eq {f : ℕ → ℕ} {x n : ℕ} (hreturn : f^[n] x = x)
    (hprime : ∀ p, p.Prime → p ∣ n → f^[n / p] x ≠ x) : Function.minimalPeriod f x = n := by
  have hperiodic : Function.IsPeriodicPt f n x := hreturn
  obtain ⟨c, hc⟩ := hperiodic.minimalPeriod_dvd
  by_contra hne
  have hc1 : c ≠ 1 := by
    rintro rfl
    exact hne (by simpa using hc.symm)
  obtain ⟨p, hp, d, rfl⟩ := Nat.exists_prime_and_dvd hc1
  refine hprime p hp ⟨Function.minimalPeriod f x * d, by rw [hc]; ring⟩ ?_
  have hdiv : n / p = Function.minimalPeriod f x * d := by
    rw [hc]
    apply Nat.div_eq_of_eq_mul_right hp.pos
    ring
  rw [hdiv]
  exact (Function.isPeriodicPt_minimalPeriod f x).mul_const d

end Tendrilix.XorLinear
