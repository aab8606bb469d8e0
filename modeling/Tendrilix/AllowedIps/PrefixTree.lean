import Tendrilix.AllowedIps.Insert
import Tendrilix.AllowedIps.PrefixMap
import Tendrilix.TreeOrder

/-!
# The tree of prefixes

A prefix is below the longer ones that begin with it. In this order the prefixes are a binary tree,
and two of them part after their common bits.
-/

namespace Tendrilix.AllowedIps.Prefix

open PrefixWord

variable {w : ℕ}

instance : PartialOrder (Prefix w) where
  le p q := p.len ≤ q.len ∧ Agree p.len p.network q.network
  le_refl p := ⟨le_rfl, Agree.refl _ _⟩
  le_trans p q r hpq hqr := ⟨hpq.1.trans hqr.1, hpq.2.trans (hqr.2.mono hpq.1)⟩
  le_antisymm p q hpq hqp :=
    Contains.eq_of_len hpq.2 q.contains_network (le_antisymm hpq.1 hqp.1)

theorem le_def {p q : Prefix w} : p ≤ q ↔ p.len ≤ q.len ∧ Agree p.len p.network q.network := Iff.rfl

instance : DecidableLE (Prefix w) := fun p q =>
  inferInstanceAs (Decidable (p.len ≤ q.len ∧ Agree p.len p.network q.network))

theorem len_lt {p q : Prefix w} (h : p < q) : p.len < q.len := by
  refine lt_of_le_of_ne h.le.1 fun hlen => h.ne ?_
  exact Contains.eq_of_len h.le.2 q.contains_network hlen

theorem bit_lt {p : Prefix w} {x : BitVec w} {i : ℕ} (h : i < p.len) (hx : p.Contains x) :
    x.getMsbD i = p.network.getMsbD i := (hx i h).symm

instance : OrderBot (Prefix w) where
  bot := ⟨0#w, 0, Nat.zero_le w, by rw [mask, if_pos rfl]⟩
  bot_le p := ⟨Nat.zero_le p.len, agree_zero _ _⟩

theorem eq_bot_of_len {p : Prefix w} (h : p.len = 0) : p = ⊥ :=
  le_antisymm (le_def.mpr ⟨h.le, h ▸ agree_zero _ _⟩) bot_le

def common (p q : Prefix w) : Prefix w where
  network := mask p.network (commonPrefixLen p.network p.len q.network q.len)
  len := commonPrefixLen p.network p.len q.network q.len
  len_le := commonPrefixLen_le.trans ((min_le_left _ _).trans p.len_le)
  masked := mask_mask (commonPrefixLen_le.trans ((min_le_left _ _).trans p.len_le))

theorem common_le_left (p q : Prefix w) : p.common q ≤ p :=
  ⟨commonPrefixLen_le.trans (min_le_left _ _), agree_mask (p.common q).len_le le_rfl⟩

theorem common_le_right (p q : Prefix w) : p.common q ≤ q :=
  ⟨commonPrefixLen_le.trans (min_le_right _ _),
    (agree_mask (p.common q).len_le le_rfl).trans (agree_commonPrefixLen p.len_le)⟩

theorem le_common {m p q : Prefix w} (hp : m ≤ p) (hq : m ≤ q) : m ≤ p.common q := by
  have hlen : m.len ≤ (p.common q).len := by
    by_contra hlt
    have hmin : (p.common q).len < min p.len q.len := (not_le.mp hlt).trans_le (le_min hp.1 hq.1)
    apply bit_ne_of_commonPrefixLen_lt p.len_le hmin
    have hbit : (p.common q).len < m.len := not_le.mp hlt
    exact (bit_lt hbit hp.2).trans (bit_lt hbit hq.2).symm
  exact ⟨hlen, hp.2.trans ((common_le_left p q).2.mono hlen).symm⟩

instance : SemilatticeInf (Prefix w) where
  inf := common
  inf_le_left := common_le_left
  inf_le_right := common_le_right
  le_inf _ _ _ := le_common

theorem lt_inf_of_bit {m p q : Prefix w} (hp : m < p) (hq : m < q)
    (hbit : p.network.getMsbD m.len = q.network.getMsbD m.len) : m < p ⊓ q := by
  refine lt_of_le_of_ne (le_inf hp.le hq.le) fun heq => ?_
  have hlen : (p.common q).len = m.len := (congrArg len heq).symm
  have hmin : (p.common q).len < min p.len q.len := by
    rw [hlen]
    exact lt_min (len_lt hp) (len_lt hq)
  have hne := bit_ne_of_commonPrefixLen_lt p.len_le hmin
  change p.network.getMsbD (p.common q).len ≠ q.network.getMsbD (p.common q).len at hne
  rw [hlen] at hne
  exact hne hbit

instance : BinaryTreeOrder (Prefix w) where
  comparable := by
    intro a b c ha hb
    rcases le_total a.len b.len with hle | hle
    · exact .inl ⟨hle, ha.2.trans (hb.2.mono hle).symm⟩
    · exact .inr ⟨hle, hb.2.trans (ha.2.mono hle).symm⟩
  branches := by
    intro m a b c ha hb hc
    by_cases hab : a.network.getMsbD m.len = b.network.getMsbD m.len
    · exact .inl (lt_inf_of_bit ha hb hab)
    · by_cases hbc : b.network.getMsbD m.len = c.network.getMsbD m.len
      · exact .inr (.inl (lt_inf_of_bit hb hc hbc))
      · have hac : a.network.getMsbD m.len = c.network.getMsbD m.len := by
          rw [Bool.eq_not_of_ne hab, Bool.eq_not_of_ne (Ne.symm hbc)]
        exact .inr (.inr (lt_inf_of_bit ha hc hac))

theorem meets_iff_le {p q : Prefix w} : p.Meets q ↔ p ≤ q ∨ q ≤ p := by
  rw [meets_iff]
  rcases le_total p.len q.len with hle | hle
  · rw [min_eq_left hle]
    refine ⟨fun h => .inl ⟨hle, h⟩, fun h => h.elim And.right fun h => ?_⟩
    exact (le_antisymm hle h.1 ▸ h.2).symm
  · rw [min_eq_right hle]
    refine ⟨fun h => .inr ⟨hle, h.symm⟩, fun h => h.elim (fun h => ?_) fun h => h.2.symm⟩
    exact le_antisymm h.1 hle ▸ h.2

end Tendrilix.AllowedIps.Prefix
