import Mathlib.Data.Finset.Sups
import Mathlib.Order.Antichain
import Mathlib.Order.Preorder.Finite
import Mathlib.Tactic

/-!
# Trees as orders

In a tree order the elements below any one are a chain, and the infimum of two elements is where
their paths from the root part. A set of elements spans the tree of the root, the elements and the
places where two of them part. In a binary tree, `n` elements none of which is below another span
`2 * n - 1` or `2 * n` places.
-/

namespace Tendrilix

open scoped FinsetFamily

class TreeOrder (α : Type) [SemilatticeInf α] : Prop where
  comparable : ∀ {a b c : α}, a ≤ c → b ≤ c → a ≤ b ∨ b ≤ a

class BinaryTreeOrder (α : Type) [SemilatticeInf α] extends TreeOrder α where
  branches : ∀ {m a b c : α}, m < a → m < b → m < c → m < a ⊓ b ∨ m < b ⊓ c ∨ m < a ⊓ c

namespace TreeOrder

variable {α : Type} [SemilatticeInf α]

theorem inf_inf_eq_left [TreeOrder α] {a b p : α} (h : ¬a ⊓ b ≤ p) : p ⊓ (a ⊓ b) = p ⊓ a := by
  apply le_antisymm
  · exact inf_le_inf_left p inf_le_left
  · have hle : p ⊓ a ≤ a ⊓ b := (comparable inf_le_right inf_le_left).resolve_right fun hle =>
      h (hle.trans inf_le_left)
    exact le_inf inf_le_left hle

variable [DecidableEq α] {s t : Finset α}

theorem exists_parting [BinaryTreeOrder α] (hs : IsAntichain (· ≤ ·) (s : Set α))
    (htwo : 1 < s.card) : ∃ p ∈ s, ∃ m ∈ s ⊼ s, m ≠ p ∧ p ∉ s.erase p ⊼ s.erase p ∧
      m ∉ s.erase p ⊼ s.erase p := by
  obtain ⟨p₀, hp₀, q₀, hq₀, hne₀⟩ := Finset.one_lt_card.mp htwo
  have hpair : p₀ ⊓ q₀ ∈ s.offDiag.image fun x => x.1 ⊓ x.2 :=
    Finset.mem_image.mpr ⟨(p₀, q₀), Finset.mem_offDiag.mpr ⟨hp₀, hq₀, hne₀⟩, rfl⟩
  obtain ⟨m, -, hm⟩ := Finset.exists_le_maximal _ hpair
  obtain ⟨⟨p, q⟩, hpq, rfl⟩ := Finset.mem_image.mp hm.prop
  obtain ⟨hp, hq, hne⟩ := Finset.mem_offDiag.mp hpq
  dsimp only at hp hq hne hm ⊢
  have hlt : ∀ a ∈ s, p ⊓ q ≤ a → p ⊓ q < a := by
    intro a ha hle
    refine lt_of_le_of_ne hle fun heq => ?_
    have hap := hs.eq ha hp (heq ▸ inf_le_left)
    have haq := hs.eq ha hq (heq ▸ inf_le_right)
    exact hne (hap.symm.trans haq)
  have hlast : ∀ a ∈ s, ∀ b ∈ s, a ≠ b → ¬p ⊓ q < a ⊓ b := by
    intro a ha b hb hab hlt
    exact hm.not_gt (Finset.mem_image.mpr ⟨(a, b), Finset.mem_offDiag.mpr ⟨ha, hb, hab⟩, rfl⟩) hlt
  refine ⟨p, hp, p ⊓ q, Finset.inf_mem_infs hp hq, (hlt p hp inf_le_left).ne, fun hmem => ?_,
    fun hmem => ?_⟩
  · obtain ⟨a, ha, b, -, heq⟩ := Finset.mem_infs.mp hmem
    rw [Finset.mem_erase] at ha
    exact ha.1 (hs.eq hp ha.2 (heq ▸ inf_le_left)).symm
  · obtain ⟨a, ha, b, hb, heq⟩ := Finset.mem_infs.mp hmem
    rw [Finset.mem_erase] at ha hb
    have hlta := hlt a ha.2 (heq ▸ inf_le_left)
    have hltb := hlt b hb.2 (heq ▸ inf_le_right)
    rcases BinaryTreeOrder.branches hlta hltb (hlt p hp inf_le_left) with h | h | h
    · exact h.ne heq.symm
    · exact hlast b hb.2 p hp hb.1 h
    · exact hlast a ha.2 p hp ha.1 h

theorem le_card_infs [BinaryTreeOrder α] (n : ℕ) (hn : s.card = n)
    (hs : IsAntichain (· ≤ ·) (s : Set α)) : 2 * n ≤ (s ⊼ s).card + 1 := by
  induction n generalizing s with
  | zero => omega
  | succ n ih =>
    by_cases htwo : 1 < s.card
    · obtain ⟨p, hp, m, hm, hne, hpnot, hmnot⟩ := exists_parting hs htwo
      have hrest := ih (by rw [Finset.card_erase_of_mem hp]; omega)
        (hs.subset (Finset.coe_subset.mpr (Finset.erase_subset p s)))
      have hsub : insert m (insert p (s.erase p ⊼ s.erase p)) ⊆ s ⊼ s := by
        refine Finset.insert_subset hm (Finset.insert_subset (Finset.subset_infs_self hp) ?_)
        exact Finset.infs_subset (Finset.erase_subset p s) (Finset.erase_subset p s)
      have hcard := Finset.card_le_card hsub
      rw [Finset.card_insert_of_notMem (by simp [hne, hmnot]), Finset.card_insert_of_notMem hpnot]
        at hcard
      omega
    · have hle : s.card ≤ (s ⊼ s).card := Finset.card_le_card Finset.subset_infs_self
      omega

variable [OrderBot α]

def spanned (s : Finset α) : Finset α := insert ⊥ (s ⊼ s)

theorem bot_mem_spanned (s : Finset α) : ⊥ ∈ spanned s := Finset.mem_insert_self _ _

theorem inf_mem_spanned {a b : α} (ha : a ∈ s) (hb : b ∈ s) : a ⊓ b ∈ spanned s :=
  Finset.mem_insert_of_mem (Finset.inf_mem_infs ha hb)

theorem mem_spanned_self {a : α} (ha : a ∈ s) : a ∈ spanned s := by
  rw [← inf_idem a]
  exact inf_mem_spanned ha ha

theorem mem_spanned {c : α} : c ∈ spanned s ↔ c = ⊥ ∨ ∃ a ∈ s, ∃ b ∈ s, a ⊓ b = c := by
  rw [spanned, Finset.mem_insert, Finset.mem_infs]

theorem spanned_mono (h : s ⊆ t) : spanned s ⊆ spanned t :=
  Finset.insert_subset_insert _ (Finset.infs_subset h h)

theorem inf_mem_spanned_insert [TreeOrder α] {c p : α} (hc : c ∈ spanned s) (hp : ¬c ≤ p) :
    p ⊓ c ∈ spanned (insert p s) := by
  rcases mem_spanned.mp hc with rfl | ⟨a, ha, b, hb, rfl⟩
  · exact absurd bot_le hp
  · rw [inf_inf_eq_left hp]
    exact inf_mem_spanned (Finset.mem_insert_self p s) (Finset.mem_insert_of_mem ha)

theorem spanned_insert_subset [TreeOrder α] (p : α) (hs : s.Nonempty) :
    ∃ m, spanned (insert p s) ⊆ insert p (insert m (spanned s)) := by
  obtain ⟨a₀, ha₀⟩ := hs
  obtain ⟨m, -, hm⟩ := (s.image (p ⊓ ·)).exists_le_maximal (Finset.mem_image_of_mem _ ha₀)
  obtain ⟨q, hq, rfl⟩ := Finset.mem_image.mp hm.prop
  have hold : ∀ a ∈ s, p ⊓ a ∈ insert (p ⊓ q) (spanned s) := by
    intro a ha
    have hmax := hm.le_of_ge (Finset.mem_image_of_mem (p ⊓ ·) ha)
    rcases comparable (inf_le_left : p ⊓ a ≤ p) (inf_le_left : p ⊓ q ≤ p) with hle | hle
    · by_cases heq : p ⊓ a = p ⊓ q
      · rw [heq]
        exact Finset.mem_insert_self _ _
      · have hqa : ¬p ⊓ q ≤ a := fun h => heq (le_antisymm hle (le_inf inf_le_left h))
        have hpart : p ⊓ a = q ⊓ a := by
          apply le_antisymm
          · exact le_inf (hle.trans inf_le_right) inf_le_right
          · have hbelow : q ⊓ a ≤ p ⊓ q :=
              (comparable inf_le_left inf_le_right).resolve_right fun h => hqa (h.trans inf_le_right)
            exact le_inf (hbelow.trans inf_le_left) inf_le_right
        rw [hpart]
        exact Finset.mem_insert_of_mem (inf_mem_spanned hq ha)
    · rw [le_antisymm (hmax hle) hle]
      exact Finset.mem_insert_self _ _
  refine ⟨p ⊓ q, fun c hc => ?_⟩
  rcases mem_spanned.mp hc with rfl | ⟨a, ha, b, hb, rfl⟩
  · exact Finset.mem_insert_of_mem (Finset.mem_insert_of_mem (bot_mem_spanned s))
  · rcases Finset.mem_insert.mp ha with hap | ha
    · rw [hap]
      rcases Finset.mem_insert.mp hb with hbp | hb
      · rw [hbp, inf_idem]
        exact Finset.mem_insert_self _ _
      · exact Finset.mem_insert_of_mem (hold b hb)
    · rcases Finset.mem_insert.mp hb with hbp | hb
      · rw [hbp, inf_comm a p]
        exact Finset.mem_insert_of_mem (hold a ha)
      · exact Finset.mem_insert_of_mem (Finset.mem_insert_of_mem (inf_mem_spanned ha hb))

theorem card_spanned_empty : (spanned (∅ : Finset α)).card = 1 := by
  rw [spanned, Finset.empty_infs, insert_empty_eq, Finset.card_singleton]

theorem card_spanned_le [TreeOrder α] (hs : s.Nonempty) : (spanned s).card ≤ 2 * s.card := by
  induction hs using Finset.Nonempty.cons_induction with
  | singleton a =>
    rw [spanned, Finset.singleton_infs_singleton, inf_idem, Finset.card_singleton]
    exact Finset.card_le_two
  | cons a s ha hs ih =>
    obtain ⟨m, hm⟩ := spanned_insert_subset a hs
    rw [Finset.cons_eq_insert, Finset.card_insert_of_notMem ha]
    calc (spanned (insert a s)).card ≤ (insert a (insert m (spanned s))).card := Finset.card_le_card hm
      _ ≤ (spanned s).card + 1 + 1 :=
        (Finset.card_insert_le _ _).trans (Nat.succ_le_succ (Finset.card_insert_le _ _))
      _ ≤ 2 * (s.card + 1) := by omega

theorem le_card_spanned [BinaryTreeOrder α] (hs : IsAntichain (· ≤ ·) (s : Set α)) :
    2 * s.card ≤ (spanned s).card + 1 :=
  (le_card_infs s.card rfl hs).trans
    (Nat.succ_le_succ (Finset.card_le_card (Finset.subset_insert ⊥ (s ⊼ s))))

end TreeOrder

end Tendrilix
