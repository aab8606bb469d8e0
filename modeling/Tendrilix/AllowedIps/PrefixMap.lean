import Tendrilix.IpNet

/-!
# Finite maps with longest-prefix match

The abstract object a routing trie implements: a map from normalised prefixes to payloads. The
type of prefixes is finite, so a map is a plain function into `Option`.
-/

namespace Tendrilix.AllowedIps

open PrefixWord

variable {w : ℕ} {D : Type}

structure Prefix (w : ℕ) where
  network : BitVec w
  len : ℕ
  len_le : len ≤ w
  masked : mask network len = network

namespace Prefix

theorem eq_iff {p q : Prefix w} : p = q ↔ p.network = q.network ∧ p.len = q.len := by
  cases p
  cases q
  simp

instance : DecidableEq (Prefix w) := fun _ _ => decidable_of_iff _ eq_iff.symm

def Contains (p : Prefix w) (a : BitVec w) : Prop := Agree p.len p.network a

def ofNet (net : Net w) : Prefix w :=
  ⟨net.network, net.prefixLen, net.prefixLen_le, by
    rw [net.network_eq_mask, mask_mask net.prefixLen_le]⟩

theorem contains_network (p : Prefix w) : p.Contains p.network := Agree.refl _ _

theorem Contains.eq_of_len {p q : Prefix w} {a : BitVec w} (hp : p.Contains a) (hq : q.Contains a)
    (hlen : p.len = q.len) : p = q := by
  have hnet : p.network = q.network := by
    calc p.network = mask a p.len := ((mask_eq_iff p.len_le p.masked).mpr hp).symm
      _ = mask a q.len := by rw [hlen]
      _ = q.network := (mask_eq_iff q.len_le q.masked).mpr hq
  cases p
  cases q
  simp_all

def Meets (p q : Prefix w) : Prop := ∃ a, p.Contains a ∧ q.Contains a

theorem meets_iff {p q : Prefix w} : p.Meets q ↔ Agree (min p.len q.len) p.network q.network := by
  constructor
  · rintro ⟨a, hp, hq⟩
    exact (hp.mono (min_le_left _ _)).trans ((hq.mono (min_le_right _ _)).symm)
  · intro h
    rcases le_total p.len q.len with hle | hle
    · rw [min_eq_left hle] at h
      exact ⟨q.network, h, q.contains_network⟩
    · rw [min_eq_right hle] at h
      exact ⟨p.network, p.contains_network, h.symm⟩

instance (p q : Prefix w) : Decidable (p.Meets q) := decidable_of_iff _ meets_iff.symm

theorem meets_self (p : Prefix w) : p.Meets p := ⟨_, p.contains_network, p.contains_network⟩

end Prefix

abbrev PrefixMap (w : ℕ) (D : Type) := Prefix w → Option D

namespace PrefixMap

def empty : PrefixMap w D := fun _ => none

def insert (m : PrefixMap w D) (p : Prefix w) (d : D) : PrefixMap w D :=
  Function.update m p (some d)

def remove (m : PrefixMap w D) (f : D → Bool) : PrefixMap w D := fun p => (m p).filter (!f ·)

theorem insert_eq_some_iff {m : PrefixMap w D} {p q : Prefix w} {d e : D} :
    m.insert p d q = some e ↔ (q = p ∧ e = d) ∨ (q ≠ p ∧ m q = some e) := by
  unfold insert
  by_cases h : q = p
  · subst h
    simp [eq_comm]
  · simp [h]

theorem remove_eq_some_iff {m : PrefixMap w D} {f : D → Bool} {p : Prefix w} {d : D} :
    m.remove f p = some d ↔ m p = some d ∧ f d = false := by
  simp [remove, Option.filter_eq_some_iff]

def Longest (m : PrefixMap w D) (a : BitVec w) (d : D) : Prop :=
  ∃ p, m p = some d ∧ p.Contains a ∧ ∀ q e, m q = some e → q.Contains a → q.len ≤ p.len

theorem Longest.unique {m : PrefixMap w D} {a : BitVec w} {d e : D} (hd : m.Longest a d)
    (he : m.Longest a e) : d = e := by
  obtain ⟨p, hp, hpa, hpmax⟩ := hd
  obtain ⟨q, hq, hqa, hqmax⟩ := he
  have hpq := hpa.eq_of_len hqa (le_antisymm (hqmax p d hp hpa) (hpmax q e hq hqa))
  subst hpq
  exact Option.some.inj (hp.symm.trans hq)

def Unrouted (m : PrefixMap w D) (a : BitVec w) : Prop := ∀ p d, m p = some d → ¬ p.Contains a

/-- The value a lookup has to return for `a`. -/
def Lookup (m : PrefixMap w D) (a : BitVec w) : Option D → Prop
  | some d => m.Longest a d
  | none => m.Unrouted a

theorem Lookup.eq_some_iff {m : PrefixMap w D} {a : BitVec w} {r : Option D} (h : m.Lookup a r)
    {d : D} : r = some d ↔ m.Longest a d := by
  cases r with
  | none =>
    refine ⟨fun he => (nomatch he), ?_⟩
    rintro ⟨p, hp, hpa, -⟩
    exact absurd hpa (h p d hp)
  | some e =>
    refine ⟨fun he => Option.some.inj he ▸ h, fun hd => ?_⟩
    rw [hd.unique h]

theorem Lookup.eq_none_iff {m : PrefixMap w D} {a : BitVec w} {r : Option D} (h : m.Lookup a r) :
    r = none ↔ m.Unrouted a := by
  cases r with
  | none => exact ⟨fun _ => h, fun _ => rfl⟩
  | some e =>
    obtain ⟨p, hp, hpa, -⟩ := h
    exact ⟨fun he => (nomatch he), fun hu => absurd hpa (hu p e hp)⟩

end PrefixMap

end Tendrilix.AllowedIps
