import Mathlib.Tactic

/-!
# Byte strings

Byte strings are lists of bytes. Fixed-width integers are written and read in little-endian and
big-endian order, and `slice` reads a range of a message.
-/

namespace Tendrilix

abbrev Bytes := List UInt8

namespace Bytes

def toLe : ℕ → ℕ → Bytes
  | 0, _ => []
  | width + 1, n => UInt8.ofNat n :: toLe width (n / 256)

def ofLe : Bytes → ℕ
  | [] => 0
  | b :: bs => b.toNat + 256 * ofLe bs

def toBe (width n : ℕ) : Bytes := (toLe width n).reverse

def ofBe (bs : Bytes) : ℕ := ofLe bs.reverse

def zeros (n : ℕ) : Bytes := List.replicate n 0

def slice (bs : Bytes) (a b : ℕ) : Bytes := (bs.drop a).take (b - a)

def overwrite (bs : Bytes) (offset : ℕ) (packet : Bytes) : Bytes :=
  bs.take offset ++ packet ++ bs.drop (offset + packet.length)

@[simp] theorem length_toLe (width n : ℕ) : (toLe width n).length = width := by
  induction width generalizing n with
  | zero => rfl
  | succ width ih => rw [toLe, List.length_cons, ih]

@[simp] theorem length_toBe (width n : ℕ) : (toBe width n).length = width := by
  rw [toBe, List.length_reverse, length_toLe]

@[simp] theorem length_zeros (n : ℕ) : (zeros n).length = n := List.length_replicate

theorem ofLe_toLe {width n : ℕ} (hn : n < 256 ^ width) : ofLe (toLe width n) = n := by
  induction width generalizing n with
  | zero =>
    rw [pow_zero] at hn
    rw [toLe, ofLe]
    omega
  | succ width ih =>
    rw [pow_succ] at hn
    have hhigh : n / 256 < 256 ^ width := by omega
    rw [toLe, ofLe, ih hhigh, UInt8.toNat_ofNat']
    omega

theorem toLe_ofLe {width : ℕ} {bs : Bytes} (h : bs.length = width) : toLe width (ofLe bs) = bs := by
  induction bs generalizing width with
  | nil =>
    subst h
    rfl
  | cons b bs ih =>
    subst h
    have hb := b.toNat_lt
    have hlow : UInt8.ofNat (b.toNat + 256 * ofLe bs) = b := by
      apply UInt8.toNat_inj.mp
      rw [UInt8.toNat_ofNat']
      omega
    have hhigh : (b.toNat + 256 * ofLe bs) / 256 = ofLe bs := by omega
    rw [List.length_cons, toLe, ofLe, hlow, hhigh, ih rfl]

theorem ofLe_lt (bs : Bytes) : ofLe bs < 256 ^ bs.length := by
  induction bs with
  | nil => simp only [ofLe, List.length_nil, pow_zero, Nat.zero_lt_one]
  | cons b bs ih =>
    have hb := b.toNat_lt
    rw [ofLe, List.length_cons, pow_succ]
    omega

theorem ofBe_toBe {width n : ℕ} (hn : n < 256 ^ width) : ofBe (toBe width n) = n := by
  rw [ofBe, toBe, List.reverse_reverse, ofLe_toLe hn]

theorem length_slice {bs : Bytes} {a b : ℕ} (hb : b ≤ bs.length) :
    (slice bs a b).length = b - a := by
  rw [slice, List.length_take, List.length_drop]
  omega

theorem slice_append_left {xs ys : Bytes} {a b : ℕ} (hb : b ≤ xs.length) :
    slice (xs ++ ys) a b = slice xs a b := by
  rcases Nat.lt_or_ge b a with hba | hab
  · rw [slice, slice, Nat.sub_eq_zero_of_le hba.le, List.take_zero, List.take_zero]
  · have ha : a ≤ xs.length := hab.trans hb
    rw [slice, slice, List.drop_append_of_le_length ha, List.take_append_of_le_length]
    rw [List.length_drop]
    omega

theorem slice_append_right {xs ys : Bytes} {a b : ℕ} (ha : xs.length ≤ a) :
    slice (xs ++ ys) a b = slice ys (a - xs.length) (b - xs.length) := by
  have hdrop : (xs ++ ys).drop a = ys.drop (a - xs.length) := by
    rw [List.drop_append, List.drop_of_length_le ha, List.nil_append]
  rw [slice, slice, hdrop]
  congr 1
  omega

theorem slice_self {bs : Bytes} {b : ℕ} (hb : b = bs.length) : slice bs 0 b = bs := by
  rw [slice, List.drop_zero, hb, Nat.sub_zero, List.take_length]

section Overwrite

variable {bs packet : Bytes} {offset : ℕ}

theorem length_overwrite (h : offset + packet.length ≤ bs.length) :
    (overwrite bs offset packet).length = bs.length := by
  rw [overwrite, List.length_append, List.length_append, List.length_take, List.length_drop]
  omega

theorem slice_overwrite_self (h : offset + packet.length ≤ bs.length) :
    slice (overwrite bs offset packet) offset (offset + packet.length) = packet := by
  have htake : (bs.take offset).length = offset := by
    rw [List.length_take]
    omega
  rw [overwrite, List.append_assoc, slice_append_right htake.le, htake, Nat.sub_self,
    slice_append_left (by omega)]
  exact slice_self (by omega)

theorem slice_overwrite_of_le {a b : ℕ} (h : offset + packet.length ≤ bs.length)
    (hb : b ≤ offset) : slice (overwrite bs offset packet) a b = slice bs a b := by
  have htake : (bs.take offset).length = offset := by
    rw [List.length_take]
    omega
  rw [overwrite, List.append_assoc, slice_append_left (by omega)]
  conv_rhs => rw [← List.take_append_drop offset bs, slice_append_left (by omega)]

theorem slice_overwrite_of_ge {a b : ℕ} (h : offset + packet.length ≤ bs.length)
    (ha : offset + packet.length ≤ a) :
    slice (overwrite bs offset packet) a b = slice bs a b := by
  have hlen : (bs.take offset ++ packet).length = offset + packet.length := by
    rw [List.length_append, List.length_take]
    omega
  have htake : (bs.take (offset + packet.length)).length = offset + packet.length := by
    rw [List.length_take]
    omega
  rw [overwrite, slice_append_right (by omega), hlen]
  conv_rhs =>
    rw [← List.take_append_drop (offset + packet.length) bs, slice_append_right (by omega), htake]

end Overwrite

end Bytes

end Tendrilix
