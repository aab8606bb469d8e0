import Tendrilix.AllowedIps.Trie

/-!
# The representation invariant of the trie

The invariant is flat: it speaks about pairs of arena nodes and never about paths. A child is a
proper extension of its parent on the right branch (`child_sound`), and whenever a node extends
another one, the child on that branch lies between the two (`child_complete`). Every shape of
insertion links one new node below an existing one, possibly twice, so `Invariant.link` is the
only place where the invariant is re-established for a new node.
-/

namespace Tendrilix.AllowedIps

open PrefixWord

variable {w : ℕ}

namespace Skeleton

def Extends (m n : Skeleton w) : Prop := n.prefixLen ≤ m.prefixLen ∧ Agree n.prefixLen n.pfx m.pfx

def Below (m n : Skeleton w) (branch : Bool) : Prop :=
  n.prefixLen < m.prefixLen ∧ Agree n.prefixLen n.pfx m.pfx ∧ m.pfx.getMsbD n.prefixLen = branch

theorem Extends.refl (n : Skeleton w) : n.Extends n := ⟨le_rfl, Agree.refl _ _⟩

theorem Extends.trans {a b c : Skeleton w} (h₁ : a.Extends b) (h₂ : b.Extends c) : a.Extends c :=
  ⟨h₂.1.trans h₁.1, h₂.2.trans (h₁.2.mono h₂.1)⟩

theorem Below.extends {m n : Skeleton w} {b : Bool} (h : m.Below n b) : m.Extends n :=
  ⟨h.1.le, h.2.1⟩

theorem Extends.below {a m n : Skeleton w} {b : Bool} (h : a.Extends m) (hm : m.Below n b) :
    a.Below n b :=
  ⟨hm.1.trans_le h.1, (h.trans hm.extends).2, by rw [← h.2 _ hm.1]; exact hm.2.2⟩

theorem Extends.below_of_lt {m n : Skeleton w} (h : m.Extends n)
    (hlt : n.prefixLen < m.prefixLen) : m.Below n (m.pfx.getMsbD n.prefixLen) := ⟨hlt, h.2, rfl⟩

theorem Extends.comparable {a m n : Skeleton w} (hm : a.Extends m) (hn : a.Extends n)
    (hle : n.prefixLen ≤ m.prefixLen) : m.Extends n :=
  ⟨hle, hn.2.trans ((hm.2.mono hle).symm)⟩

theorem extends_congr {a a' b b' : Skeleton w} (hp : a.pfx = a'.pfx)
    (hl : a.prefixLen = a'.prefixLen) (hp' : b.pfx = b'.pfx) (hl' : b.prefixLen = b'.prefixLen) :
    a.Extends b ↔ a'.Extends b' := by
  simp only [Extends, hp, hl, hp', hl']

theorem below_congr {a a' b : Skeleton w} {branch : Bool} (hp : a.pfx = a'.pfx)
    (hl : a.prefixLen = a'.prefixLen) : a.Below b branch ↔ a'.Below b branch := by
  simp only [Below, hp, hl]

@[simp] theorem setChild_pfx (n : Skeleton w) (b : Bool) (index : NodeIndex) :
    (n.setChild b index).pfx = n.pfx := rfl

@[simp] theorem setChild_prefixLen (n : Skeleton w) (b : Bool) (index : NodeIndex) :
    (n.setChild b index).prefixLen = n.prefixLen := rfl

theorem setChild_child_self (n : Skeleton w) (b : Bool) (index : NodeIndex) :
    (n.setChild b index).child b = some index := by simp [setChild]

theorem setChild_child_ne (n : Skeleton w) {b b' : Bool} (index : NodeIndex) (hb : b' ≠ b) :
    (n.setChild b index).child b' = n.child b' := by simp [setChild, hb]

end Skeleton

structure Invariant (nodes : List (Skeleton w)) : Prop where
  root : ∃ r, nodes[0]? = some r ∧ r.prefixLen = 0
  len_le : ∀ {i : ℕ} {n : Skeleton w}, nodes[i]? = some n → n.prefixLen ≤ w
  masked : ∀ {i : ℕ} {n : Skeleton w}, nodes[i]? = some n → mask n.pfx n.prefixLen = n.pfx
  unique : ∀ {i j : ℕ} {m n : Skeleton w}, nodes[i]? = some m → nodes[j]? = some n →
    m.Extends n → n.Extends m → i = j
  child_sound : ∀ {i : ℕ} {n : Skeleton w} {b : Bool} {c : NodeIndex}, nodes[i]? = some n →
    n.child b = some c → ∃ k, nodes[decodeNodeIndex c]? = some k ∧ k.Below n b
  child_complete : ∀ {i j : ℕ} {n m : Skeleton w} {b : Bool}, nodes[i]? = some n →
    nodes[j]? = some m → m.Below n b →
    ∃ c k, n.child b = some c ∧ nodes[decodeNodeIndex c]? = some k ∧ m.Extends k

theorem Invariant.new : Invariant [(Node.new 0#w 0 : Node w Unit).toSkeleton] := by
  have hget : ∀ {i : ℕ} {n : Skeleton w}, [(Node.new 0#w 0 : Node w Unit).toSkeleton][i]? = some n →
      i = 0 ∧ n = (Node.new 0#w 0 : Node w Unit).toSkeleton := by
    intro i n h
    cases i with
    | zero => exact ⟨rfl, by simpa using h.symm⟩
    | succ i => simp at h
  refine ⟨⟨_, rfl, rfl⟩, ?_, ?_, ?_, ?_, ?_⟩
  · intro i n h
    rw [(hget h).2]
    exact Nat.zero_le _
  · intro i n h
    rw [(hget h).2]
    simp [Node.new, mask]
  · intro i j m n hm hn _ _
    rw [(hget hm).1, (hget hn).1]
  · intro i n b c h hc
    rw [(hget h).2] at hc
    simp [Node.new] at hc
  · intro i j n m b hn hm hb
    rw [(hget hn).2, (hget hm).2] at hb
    exact absurd hb.1 (lt_irrefl _)

structure Linkable (nodes : List (Skeleton w)) (n : Skeleton w) (branch : Bool) (m : Skeleton w) :
    Prop where
  below : m.Below n branch
  len_le : m.prefixLen ≤ w
  masked : mask m.pfx m.prefixLen = m.pfx
  displaced : ∀ {j : ℕ} {k : Skeleton w}, nodes[j]? = some k → k.Below n branch →
    k.Below m (k.pfx.getMsbD m.prefixLen)
  child_sound : ∀ {b : Bool} {c : NodeIndex}, m.child b = some c →
    ∃ k, nodes[decodeNodeIndex c]? = some k ∧ k.Below m b
  child_complete : ∀ {j : ℕ} {k : Skeleton w} {b : Bool}, nodes[j]? = some k → k.Below m b →
    ∃ c k', m.child b = some c ∧ nodes[decodeNodeIndex c]? = some k' ∧ k.Extends k'

def linked (nodes : List (Skeleton w)) (nodeIdx : ℕ) (n : Skeleton w) (branch : Bool)
    (index : NodeIndex) (m : Skeleton w) : List (Skeleton w) :=
  (nodes ++ [m]).set nodeIdx (n.setChild branch index)

theorem linked_length (nodes : List (Skeleton w)) (nodeIdx : ℕ) (n : Skeleton w) (branch : Bool)
    (index : NodeIndex) (m : Skeleton w) :
    (linked nodes nodeIdx n branch index m).length = nodes.length + 1 := by
  simp [linked]

section Link

variable {nodes : List (Skeleton w)} {nodeIdx : ℕ} {n m : Skeleton w} {branch : Bool}
  {index : NodeIndex}

theorem linked_get_old {i : ℕ} {k : Skeleton w}
    (hk : nodes[i]? = some k) (hi : i ≠ nodeIdx) :
    (linked nodes nodeIdx n branch index m)[i]? = some k := by
  have hlt := (List.getElem?_eq_some_iff.mp hk).1
  rw [linked, List.getElem?_set_ne (Ne.symm hi), List.getElem?_append_left hlt, hk]

theorem linked_get_parent (hn : nodes[nodeIdx]? = some n) :
    (linked nodes nodeIdx n branch index m)[nodeIdx]? = some (n.setChild branch index) := by
  have hlt := (List.getElem?_eq_some_iff.mp hn).1
  rw [linked, List.getElem?_set_self (by simp; omega)]

theorem linked_get_new (branch : Bool) (index : NodeIndex) (m : Skeleton w)
    (hn : nodes[nodeIdx]? = some n) :
    (linked nodes nodeIdx n branch index m)[nodes.length]? = some m := by
  have hlt := (List.getElem?_eq_some_iff.mp hn).1
  rw [linked, List.getElem?_set_ne (by omega)]
  simp

theorem linked_get_cases (hn : nodes[nodeIdx]? = some n) {i : ℕ} {k : Skeleton w}
    (hk : (linked nodes nodeIdx n branch index m)[i]? = some k) :
    (i ≠ nodeIdx ∧ nodes[i]? = some k) ∨ (i = nodeIdx ∧ k = n.setChild branch index) ∨
      (i = nodes.length ∧ k = m) := by
  have hlt := (List.getElem?_eq_some_iff.mp hn).1
  by_cases hi : i = nodeIdx
  · subst hi
    rw [linked_get_parent hn] at hk
    exact .inr (.inl ⟨rfl, (Option.some.inj hk).symm⟩)
  · by_cases hl : i < nodes.length
    · rw [linked, List.getElem?_set_ne (Ne.symm hi), List.getElem?_append_left hl] at hk
      exact .inl ⟨hi, hk⟩
    · have hi' := (List.getElem?_eq_some_iff.mp hk).1
      rw [linked_length] at hi'
      have he : i = nodes.length := by omega
      subst he
      rw [linked_get_new branch index m hn] at hk
      exact .inr (.inr ⟨rfl, (Option.some.inj hk).symm⟩)

theorem linked_get_of_old (branch : Bool) (index : NodeIndex) (m : Skeleton w)
    (hn : nodes[nodeIdx]? = some n) {i : ℕ} {k : Skeleton w}
    (hk : nodes[i]? = some k) :
    ∃ k', (linked nodes nodeIdx n branch index m)[i]? = some k' ∧ k'.pfx = k.pfx ∧
      k'.prefixLen = k.prefixLen := by
  by_cases hi : i = nodeIdx
  · subst hi
    rw [hn] at hk
    cases hk
    exact ⟨_, linked_get_parent hn, rfl, rfl⟩
  · exact ⟨k, linked_get_old hk hi, rfl, rfl⟩

theorem linked_old_or_new (hn : nodes[nodeIdx]? = some n) {i : ℕ} {k : Skeleton w}
    (hk : (linked nodes nodeIdx n branch index m)[i]? = some k) :
    (∃ j k₀, nodes[j]? = some k₀ ∧ j = i ∧ k.pfx = k₀.pfx ∧ k.prefixLen = k₀.prefixLen) ∨
      (i = nodes.length ∧ k = m) := by
  rcases linked_get_cases hn hk with ⟨-, hk⟩ | ⟨hi, hk⟩ | hk
  · exact .inl ⟨i, k, hk, rfl, rfl, rfl⟩
  · exact .inl ⟨nodeIdx, n, hn, hi.symm, by simp [hk], by simp [hk]⟩
  · exact .inr hk

theorem linked_below (branch : Bool) (index : NodeIndex) (m : Skeleton w)
    (hn : nodes[nodeIdx]? = some n) {j : ℕ} {k a : Skeleton w} {b : Bool}
    (hk : nodes[j]? = some k) (hb : k.Below a b) :
    ∃ k', (linked nodes nodeIdx n branch index m)[j]? = some k' ∧ k'.Below a b := by
  obtain ⟨k', hk', hp, hl⟩ := linked_get_of_old branch index m hn hk
  exact ⟨k', hk', (Skeleton.below_congr hp hl).mpr hb⟩

theorem linked_leads (branch : Bool) (index : NodeIndex) (m : Skeleton w)
    (hn : nodes[nodeIdx]? = some n) {a x k : Skeleton w} {b : Bool} {c : NodeIndex}
    (hc : a.child b = some c) (hk : nodes[decodeNodeIndex c]? = some k) (he : x.Extends k) :
    ∃ c' k', a.child b = some c' ∧
      (linked nodes nodeIdx n branch index m)[decodeNodeIndex c']? = some k' ∧ x.Extends k' := by
  obtain ⟨k', hk', hp, hl⟩ := linked_get_of_old branch index m hn hk
  exact ⟨c, k', hc, hk', (Skeleton.extends_congr rfl rfl hp hl).mpr he⟩

theorem Linkable.key_new (hm : Linkable nodes n branch m) {j : ℕ} {k : Skeleton w}
    (hk : nodes[j]? = some k) (hmk : m.Extends k) : ¬k.Extends m := by
  intro hkm
  have hlt := (hm.displaced hk (hkm.below hm.below)).1
  exact absurd hmk.1 (by omega)

theorem Invariant.towards (h : Invariant nodes) (hn : nodes[nodeIdx]? = some n)
    (hm : Linkable nodes n branch m) {i : ℕ} {a : Skeleton w} {b : Bool}
    (ha : nodes[i]? = some a) (hab : m.Below a b) :
    (i = nodeIdx ∧ b = branch) ∨ (i ≠ nodeIdx ∧
      ∃ c k, a.child b = some c ∧ nodes[decodeNodeIndex c]? = some k ∧ m.Extends k) := by
  by_cases hi : i = nodeIdx
  · subst hi
    rw [hn] at ha
    cases ha
    exact .inl ⟨rfl, hab.2.2.symm.trans hm.below.2.2⟩
  · refine .inr ⟨hi, ?_⟩
    rcases lt_trichotomy a.prefixLen n.prefixLen with hlt | heq | hgt
    · have hna := hm.below.extends.comparable hab.extends hlt.le
      have hnb := hna.below_of_lt hlt
      have hbit : n.pfx.getMsbD a.prefixLen = b :=
        (hm.below.2.1 _ hlt).trans hab.2.2
      rw [hbit] at hnb
      obtain ⟨c, k, hc, hk, hnk⟩ := h.child_complete ha hn hnb
      exact ⟨c, k, hc, hk, hm.below.extends.trans hnk⟩
    · have h1 := hm.below.extends.comparable hab.extends heq.le
      have h2 := hab.extends.comparable hm.below.extends heq.ge
      exact absurd (h.unique ha hn h2 h1) hi
    · have hac := hab.extends.comparable hm.below.extends hgt.le
      have hbel := hac.below_of_lt hgt
      have hbit : a.pfx.getMsbD n.prefixLen = branch :=
        (hab.2.1 _ hgt).trans hm.below.2.2
      rw [hbit] at hbel
      have hlt := (hm.displaced ha hbel).1
      exact absurd hab.1 (by omega)

theorem Invariant.link_unique (h : Invariant nodes) (hn : nodes[nodeIdx]? = some n)
    (hm : Linkable nodes n branch m) {i j : ℕ} {a b : Skeleton w}
    (ha : (linked nodes nodeIdx n branch index m)[i]? = some a)
    (hb : (linked nodes nodeIdx n branch index m)[j]? = some b) (h1 : a.Extends b)
    (h2 : b.Extends a) : i = j := by
  rcases linked_old_or_new hn ha with ⟨i', a₀, ha₀, hi, hpa, hla⟩ | ⟨hi, ha⟩ <;>
    rcases linked_old_or_new hn hb with ⟨j', b₀, hb₀, hj, hpb, hlb⟩ | ⟨hj, hb⟩
  · rw [← hi, ← hj]
    exact h.unique ha₀ hb₀ ((Skeleton.extends_congr hpa hla hpb hlb).mp h1)
      ((Skeleton.extends_congr hpb hlb hpa hla).mp h2)
  · rw [hb] at h1 h2
    exact absurd ((Skeleton.extends_congr hpa hla rfl rfl).mp h1)
      (hm.key_new ha₀ ((Skeleton.extends_congr rfl rfl hpa hla).mp h2))
  · rw [ha] at h1 h2
    exact absurd ((Skeleton.extends_congr hpb hlb rfl rfl).mp h2)
      (hm.key_new hb₀ ((Skeleton.extends_congr rfl rfl hpb hlb).mp h1))
  · exact hi.trans hj.symm

theorem Invariant.link_child_sound (h : Invariant nodes) (hn : nodes[nodeIdx]? = some n)
    (hm : Linkable nodes n branch m) (hindex : decodeNodeIndex index = nodes.length) {i : ℕ}
    {a : Skeleton w} {b : Bool} {c : NodeIndex}
    (ha : (linked nodes nodeIdx n branch index m)[i]? = some a) (hc : a.child b = some c) :
    ∃ k, (linked nodes nodeIdx n branch index m)[decodeNodeIndex c]? = some k ∧ k.Below a b := by
  rcases linked_get_cases hn ha with ⟨-, ha⟩ | ⟨-, ha⟩ | ⟨-, ha⟩
  · obtain ⟨k, hk, hkb⟩ := h.child_sound ha hc
    exact linked_below branch index m hn hk hkb
  · rw [ha] at hc ⊢
    by_cases hb : b = branch
    · subst hb
      rw [Skeleton.setChild_child_self] at hc
      cases hc
      exact ⟨m, hindex ▸ linked_get_new b index m hn, hm.below⟩
    · rw [Skeleton.setChild_child_ne _ _ hb] at hc
      obtain ⟨k, hk, hkb⟩ := h.child_sound hn hc
      exact linked_below branch index m hn hk hkb
  · rw [ha] at hc ⊢
    obtain ⟨k, hk, hkb⟩ := hm.child_sound hc
    exact linked_below branch index m hn hk hkb

theorem Invariant.link_child_complete (h : Invariant nodes) (hn : nodes[nodeIdx]? = some n)
    (hm : Linkable nodes n branch m) (hindex : decodeNodeIndex index = nodes.length) {i j : ℕ}
    {a x : Skeleton w} {b : Bool}
    (ha : (linked nodes nodeIdx n branch index m)[i]? = some a)
    (hx : (linked nodes nodeIdx n branch index m)[j]? = some x) (hb : x.Below a b) :
    ∃ c k, a.child b = some c ∧
      (linked nodes nodeIdx n branch index m)[decodeNodeIndex c]? = some k ∧ x.Extends k := by
  have hnew := linked_get_new branch index m hn
  rcases linked_get_cases hn ha with ⟨hi, ha⟩ | ⟨-, ha⟩ | ⟨-, ha⟩ <;>
    rcases linked_old_or_new hn hx with ⟨j', x₀, hx₀, -, hp, hl⟩ | ⟨-, hx⟩
  · obtain ⟨c, k, hc, hk, he⟩ := h.child_complete ha hx₀ ((Skeleton.below_congr hp hl).mp hb)
    exact linked_leads branch index m hn hc hk ((Skeleton.extends_congr hp hl rfl rfl).mpr he)
  · rw [hx] at hb ⊢
    obtain ⟨hi', -⟩ | ⟨-, c, k, hc, hk, he⟩ := h.towards hn hm ha hb
    · exact absurd hi' hi
    · exact linked_leads branch index m hn hc hk he
  · rw [ha] at hb ⊢
    have hb₀ := (Skeleton.below_congr hp hl).mp hb
    by_cases hbr : b = branch
    · subst hbr
      refine ⟨index, m, Skeleton.setChild_child_self _ _ _, hindex ▸ hnew, ?_⟩
      exact (Skeleton.extends_congr hp hl rfl rfl).mpr (hm.displaced hx₀ hb₀).extends
    · obtain ⟨c, k, hc, hk, he⟩ := h.child_complete hn hx₀ hb₀
      rw [← Skeleton.setChild_child_ne n index hbr] at hc
      exact linked_leads branch index m hn hc hk ((Skeleton.extends_congr hp hl rfl rfl).mpr he)
  · rw [ha, hx] at hb
    rw [ha, hx]
    have hbr : b = branch := hb.2.2.symm.trans hm.below.2.2
    subst hbr
    exact ⟨index, m, Skeleton.setChild_child_self _ _ _, hindex ▸ hnew, Skeleton.Extends.refl m⟩
  · rw [ha] at hb ⊢
    obtain ⟨c, k, hc, hk, he⟩ := hm.child_complete hx₀ ((Skeleton.below_congr hp hl).mp hb)
    exact linked_leads branch index m hn hc hk ((Skeleton.extends_congr hp hl rfl rfl).mpr he)
  · rw [ha, hx] at hb
    exact absurd hb.1 (lt_irrefl _)

/-- Linking keeps the invariant. Only the pairs that involve the new node or the changed branch
are new. -/
theorem Invariant.link (h : Invariant nodes) (hn : nodes[nodeIdx]? = some n)
    (hm : Linkable nodes n branch m) (hindex : decodeNodeIndex index = nodes.length) :
    Invariant (linked nodes nodeIdx n branch index m) := by
  refine ⟨?_, ?_, ?_, h.link_unique hn hm, h.link_child_sound hn hm hindex,
    h.link_child_complete hn hm hindex⟩
  · obtain ⟨r, hr, h0⟩ := h.root
    obtain ⟨r', hr', -, hl⟩ := linked_get_of_old branch index m hn hr
    exact ⟨r', hr', hl.trans h0⟩
  · intro i k hk
    rcases linked_old_or_new hn hk with ⟨j, k₀, hk₀, -, hp, hl⟩ | ⟨-, hk⟩
    · rw [hl]
      exact h.len_le hk₀
    · rw [hk]
      exact hm.len_le
  · intro i k hk
    rcases linked_old_or_new hn hk with ⟨j, k₀, hk₀, -, hp, hl⟩ | ⟨-, hk⟩
    · rw [hp, hl]
      exact h.masked hk₀
    · rw [hk]
      exact hm.masked

end Link

end Tendrilix.AllowedIps
