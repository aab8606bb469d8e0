import Tendrilix.AllowedIps.Lookup
import Tendrilix.AllowedIps.PrefixTree

/-!
# How many nodes a trie has

The nodes of a trie without removals are the tree that its prefixes span: the root, the prefixes
and the places where two of them part. An insertion fails exactly when the larger tree has more
nodes than the trie may have.
-/

namespace Tendrilix.AllowedIps

open PrefixWord TreeOrder

variable {w : ℕ} {D : Type}

def Skeleton.key (n : Skeleton w) : Prefix w :=
  Prefix.ofNet ⟨n.pfx, min n.prefixLen w, min_le_right _ _⟩

def keys (nodes : List (Node w D)) : List (Prefix w) := nodes.map fun n => n.key

/-- The nodes a trie may have: 16-bit indexes reach 65535 of them. -/
def nodeLimit : Option ℕ → ℕ
  | none => 65535
  | some N => min N 65535

theorem keys_length (nodes : List (Node w D)) : (keys nodes).length = nodes.length :=
  List.length_map ..

theorem mem_keys {nodes : List (Node w D)} {p : Prefix w} :
    p ∈ keys nodes ↔ ∃ (i : ℕ) (n : Node w D), nodes[i]? = some n ∧ n.key = p := by
  rw [keys, List.mem_map]
  constructor
  · intro ⟨n, hn, hp⟩
    obtain ⟨i, hi⟩ := List.mem_iff_getElem?.mp hn
    exact ⟨i, n, hi, hp⟩
  · intro ⟨i, n, hi, hp⟩
    exact ⟨n, List.mem_of_getElem? hi, hp⟩

theorem keys_set {nodes : List (Node w D)} {i : ℕ} {n n' : Node w D} (hn : nodes[i]? = some n)
    (hkey : n'.key = n.key) : keys (nodes.set i n') = keys nodes := by
  have hget : (keys nodes)[i]? = some n.key := by
    rw [keys, List.getElem?_map, hn]
    rfl
  obtain ⟨hlt, hget⟩ := List.getElem?_eq_some_iff.mp hget
  rw [keys, List.map_set, hkey, ← hget]
  exact List.set_getElem_self hlt

theorem keys_singleton (n : Node w D) : keys [n] = [n.key] := rfl

theorem keys_pair (m n : Node w D) : keys ([m] ++ [n]) = [m.key, n.key] := rfl

theorem setChild_key (n : Node w D) (branch : Bool) (index : NodeIndex) :
    (n.setChild branch index).key = n.key := rfl

theorem keys_append (nodes more : List (Node w D)) :
    keys (nodes ++ more) = keys nodes ++ keys more := List.map_append

theorem keys_linked {nodes more : List (Node w D)} {i : ℕ} {n : Node w D}
    (hn : nodes[i]? = some n) (branch : Bool) (index : NodeIndex) :
    keys ((nodes ++ more).set i (n.setChild branch index)) = keys nodes ++ keys more := by
  have hlt := (List.getElem?_eq_some_iff.mp hn).1
  have hn' : (nodes ++ more)[i]? = some n := by rw [List.getElem?_append_left hlt, hn]
  rw [keys_set hn' (setChild_key n branch index), keys_append]

section Keys

variable {n : Skeleton w}

theorem Skeleton.key_len (hlen : n.prefixLen ≤ w) : n.key.len = n.prefixLen := min_eq_left hlen

theorem Skeleton.key_network (hlen : n.prefixLen ≤ w) (hmask : mask n.pfx n.prefixLen = n.pfx) :
    n.key.network = n.pfx := by
  change (⟨n.pfx, min n.prefixLen w, min_le_right _ _⟩ : Net w).network = n.pfx
  rw [Net.network_eq_mask]
  change mask n.pfx (min n.prefixLen w) = n.pfx
  rw [min_eq_left hlen, hmask]

theorem Skeleton.key_eq (p : Prefix w) (hpfx : n.pfx = p.network) (hlen : n.prefixLen = p.len) :
    n.key = p := by
  have hle : n.prefixLen ≤ w := hlen ▸ p.len_le
  have hmask : mask n.pfx n.prefixLen = n.pfx := by
    rw [hpfx, hlen]
    exact p.masked
  apply le_antisymm
  · exact ⟨(key_len hle).trans_le hlen.le, by rw [key_network hle hmask, hpfx]; exact Agree.refl _ _⟩
  · exact ⟨hlen.symm.trans_le (key_len hle).ge,
      by rw [key_network hle hmask, hpfx]; exact Agree.refl _ _⟩

end Keys

section Invariant

variable {nodes : List (Node w D)} {i j : ℕ} {m n : Node w D}

theorem Invariant.key_len (h : Invariant (skeletons nodes)) (hn : nodes[i]? = some n) :
    n.key.len = n.prefixLen := Skeleton.key_len (h.len_le (skeletons_get hn))

theorem Invariant.key_network (h : Invariant (skeletons nodes)) (hn : nodes[i]? = some n) :
    n.key.network = n.pfx :=
  Skeleton.key_network (h.len_le (skeletons_get hn)) (h.masked (skeletons_get hn))

theorem Invariant.key_le_iff (h : Invariant (skeletons nodes)) (hm : nodes[i]? = some m)
    (hn : nodes[j]? = some n) : n.key ≤ m.key ↔ m.toSkeleton.Extends n.toSkeleton := by
  rw [Prefix.le_def, h.key_len hm, h.key_len hn, h.key_network hm, h.key_network hn]
  rfl

theorem Invariant.keys_nodup (h : Invariant (skeletons nodes)) : (keys nodes).Nodup := by
  rw [List.nodup_iff_getElem?_ne_getElem?]
  intro i j hij hj heq
  rw [keys_length] at hj
  have hi : i < nodes.length := hij.trans hj
  have hm := List.getElem?_eq_getElem hi
  have hn := List.getElem?_eq_getElem hj
  rw [keys, List.getElem?_map, List.getElem?_map, hm, hn, Option.map_some, Option.map_some,
    Option.some.injEq] at heq
  exact hij.ne (h.unique (skeletons_get hm) (skeletons_get hn) ((h.key_le_iff hm hn).mp heq.ge)
    ((h.key_le_iff hn hm).mp heq.le))

theorem Invariant.bot_mem_keys (h : Invariant (skeletons nodes)) : ⊥ ∈ keys nodes := by
  obtain ⟨r, hr, h0⟩ := h.root
  obtain ⟨root, hroot, rfl⟩ := skeletons_get_iff.mp hr
  exact mem_keys.mpr ⟨0, root, hroot, Prefix.eq_bot_of_len ((h.key_len hroot).trans h0)⟩

theorem Invariant.exists_child (h : Invariant (skeletons nodes)) (hn : nodes[i]? = some n)
    {p : Prefix w} (hp : p ∈ keys nodes) (hlt : n.key < p) :
    ∃ (c : NodeIndex) (k : Node w D), n.child (p.network.getMsbD n.key.len) = some c ∧
      nodes[decodeNodeIndex c]? = some k ∧ n.key < k.key ∧ k.key ≤ p := by
  obtain ⟨j, m, hm, rfl⟩ := mem_keys.mp hp
  have hlen := Prefix.len_lt hlt
  rw [h.key_len hn, h.key_len hm] at hlen
  have hext := (h.key_le_iff hm hn).mp hlt.le
  have hbelow := hext.below_of_lt hlen
  obtain ⟨c, _, hc, hget, he⟩ := h.child_complete (skeletons_get hn) (skeletons_get hm) hbelow
  obtain ⟨k, hk, rfl⟩ := skeletons_get_iff.mp hget
  have hkn := child_below h hn hc hk
  have hne : n.key ≠ k.key := by
    intro heq
    have hlen := congrArg Prefix.len heq
    rw [h.key_len hn, h.key_len hk] at hlen
    exact hkn.1.ne hlen
  refine ⟨c, k, ?_, hk, lt_of_le_of_ne ((h.key_le_iff hk hn).mpr hkn.extends) hne,
    (h.key_le_iff hm hk).mpr he⟩
  rw [h.key_network hm, h.key_len hn]
  exact hc

theorem Invariant.inf_mem_keys (h : Invariant (skeletons nodes)) {p q : Prefix w}
    (hp : p ∈ keys nodes) (hq : q ∈ keys nodes) : p ⊓ q ∈ keys nodes := by
  have hbot : (⊥ : Prefix w) ∈ (keys nodes).toFinset.filter (· ≤ p ⊓ q) := by
    rw [Finset.mem_filter, List.mem_toFinset]
    exact ⟨h.bot_mem_keys, bot_le⟩
  obtain ⟨m, -, hm⟩ := Finset.exists_le_maximal _ hbot
  obtain ⟨hmem, hle⟩ := Finset.mem_filter.mp hm.prop
  rw [List.mem_toFinset] at hmem
  by_contra hnot
  have hlt : m < p ⊓ q := lt_of_le_of_ne hle fun heq => hnot (heq ▸ hmem)
  have hbit : p.network.getMsbD m.len = q.network.getMsbD m.len :=
    (Prefix.bit_lt (Prefix.len_lt hlt) (inf_le_left : p ⊓ q ≤ p).2).trans
      (Prefix.bit_lt (Prefix.len_lt hlt) (inf_le_right : p ⊓ q ≤ q).2).symm
  obtain ⟨i, n, hn, rfl⟩ := mem_keys.mp hmem
  obtain ⟨c, k, hc, hk, hnk, hkp⟩ := h.exists_child hn hp (hlt.trans_le inf_le_left)
  obtain ⟨c', k', hc', hk', -, hkq⟩ := h.exists_child hn hq (hlt.trans_le inf_le_right)
  rw [hbit, hc'] at hc
  cases hc
  rw [hk] at hk'
  cases hk'
  have hin : k.key ∈ (keys nodes).toFinset.filter (· ≤ p ⊓ q) := by
    rw [Finset.mem_filter, List.mem_toFinset]
    exact ⟨mem_keys.mpr ⟨_, k, hk, rfl⟩, le_inf hkp hkq⟩
  exact hm.not_gt hin hnk

end Invariant

/-! ### Room for a turn -/

section Room

variable {capacity : Option ℕ} {nodes : List (Node w D)}

theorem encodeNodeIndex_eq_ok {index : ℕ} (h : index + 1 < 2 ^ 16) :
    ∃ stored, encodeNodeIndex index = .ok stored := ⟨_, dif_pos h⟩

theorem lt_of_encodeNodeIndex {index : ℕ} {stored : NodeIndex}
    (h : encodeNodeIndex index = .ok stored) : index + 1 < 2 ^ 16 := by
  rw [encodeNodeIndex] at h
  split at h
  · assumption
  · cases h

theorem encodeNodeIndex_decode (stored : NodeIndex) :
    ∃ stored', encodeNodeIndex (decodeNodeIndex stored) = .ok stored' := by
  apply encodeNodeIndex_eq_ok
  have hne := stored.ne_zero
  have hlt := stored.lt
  rw [decodeNodeIndex]
  omega

theorem le_nodeLimit {n : ℕ} :
    n ≤ nodeLimit capacity ↔ n < 2 ^ 16 ∧ ∀ N, capacity = some N → n ≤ N := by
  cases capacity with
  | none => simp [nodeLimit, Nat.lt_succ_iff]
  | some N =>
    rw [nodeLimit, le_min_iff]
    constructor
    · exact fun h => ⟨Nat.lt_succ_of_le h.2, fun M hM => Option.some.inj hM ▸ h.1⟩
    · exact fun h => ⟨h.2 N rfl, Nat.le_of_lt_succ h.1⟩

theorem push_eq (n : Node w D) (hroom : ∀ N, capacity = some N → nodes.length < N) :
    push capacity nodes n = .ok (nodes ++ [n]) := by
  cases capacity with
  | none => rfl
  | some N => exact if_pos (hroom N rfl)

theorem length_lt_of_push {n : Node w D} {nodes' : List (Node w D)}
    (h : push capacity nodes n = .ok nodes') (N : ℕ) (hN : capacity = some N) : nodes.length < N := by
  subst hN
  rw [push] at h
  split at h
  · assumption
  · cases h

theorem hangLeaf_cases (capacity : Option ℕ) (nodes : List (Node w D)) (i : ℕ) (n : Node w D)
    (branch : Bool) (leaf : Node w D) :
    (nodes.length + 1 ≤ nodeLimit capacity ∧ ∃ index, hangLeaf capacity nodes i n branch leaf =
      .ok ((nodes ++ [leaf]).set i (n.setChild branch index))) ∨
    (nodeLimit capacity < nodes.length + 1 ∧ ∃ e, hangLeaf capacity nodes i n branch leaf = .error e) := by
  cases hok : hangLeaf capacity nodes i n branch leaf with
  | error e =>
    refine .inr ⟨not_le.mp fun hroom => ?_, e, rfl⟩
    obtain ⟨hlt, hfits⟩ := le_nodeLimit.mp hroom
    obtain ⟨index, hindex⟩ := encodeNodeIndex_eq_ok hlt
    rw [hangLeaf, hindex, ok_bind, push_eq leaf hfits] at hok
    cases hok
  | ok nodes' =>
    obtain ⟨index, hindex, hok⟩ := bind_ok_iff.mp hok
    obtain ⟨pushed, hpush, hok⟩ := bind_ok_iff.mp hok
    refine .inl ⟨le_nodeLimit.mpr ⟨lt_of_encodeNodeIndex hindex, length_lt_of_push hpush⟩, index, ?_⟩
    rw [← push_eq_ok hpush]
    exact hok.symm

section Split

variable {i : ℕ} {n c : Node w D} {branch : Bool} {common prefixLen : ℕ} {pfx : BitVec w} {d : D}

theorem splitChild_fits {childIdx : ℕ} {nodes' : List (Node w D)}
    (hok : splitChild capacity nodes i n branch childIdx c common pfx prefixLen d = .ok nodes') :
    nodes.length + (if common = prefixLen then 1 else 2) ≤ nodeLimit capacity := by
  simp only [splitChild] at hok
  by_cases hfits : capacity.any (fun N => decide (N < nodes.length +
      if common = prefixLen then 1 else 2)) = true
  · rw [if_pos hfits] at hok
    cases hok
  rw [if_neg hfits] at hok
  obtain ⟨mIdx, hm, hok⟩ := bind_ok_iff.mp hok
  obtain ⟨stored, -, hok⟩ := bind_ok_iff.mp hok
  refine le_nodeLimit.mpr ⟨?_, fun N hN => ?_⟩
  · by_cases hcommon : common = prefixLen
    · rw [if_pos hcommon]
      exact lt_of_encodeNodeIndex hm
    · rw [if_neg hcommon] at hok ⊢
      obtain ⟨leafIdx, hleaf, -⟩ := bind_ok_iff.mp hok
      exact lt_of_encodeNodeIndex hleaf
  · rw [hN, Option.any_some, decide_eq_true_eq, not_lt] at hfits
    exact hfits

theorem splitChild_of_fits (cIdx : NodeIndex)
    (hroom : nodes.length + (if common = prefixLen then 1 else 2) ≤ nodeLimit capacity) :
    ∃ nodes', splitChild capacity nodes i n branch (decodeNodeIndex cIdx) c common pfx prefixLen d =
      .ok nodes' := by
  obtain ⟨hlt, hfits⟩ := le_nodeLimit.mp hroom
  have hany : ¬capacity.any (fun N => decide (N < nodes.length +
      if common = prefixLen then 1 else 2)) = true := by
    rw [Option.any_eq_true]
    rintro ⟨N, hN, hlt⟩
    exact absurd (hfits N hN) (not_le.mpr (of_decide_eq_true hlt))
  obtain ⟨stored, hstored⟩ := encodeNodeIndex_decode cIdx
  have hlt₁ : nodes.length + 1 < 2 ^ 16 := by split at hlt <;> omega
  obtain ⟨mIdx, hm⟩ := encodeNodeIndex_eq_ok hlt₁
  simp only [splitChild, if_neg hany, hm, hstored, ok_bind]
  by_cases hcommon : common = prefixLen
  · rw [if_pos hcommon] at hfits
    rw [if_pos hcommon, push_eq _ hfits]
    exact ⟨_, rfl⟩
  · rw [if_neg hcommon] at hlt hfits
    obtain ⟨leafIdx, hleaf⟩ := encodeNodeIndex_eq_ok hlt
    have hfirst : ∀ N, capacity = some N → nodes.length < N := fun N hN => by
      have := hfits N hN
      omega
    rw [if_neg hcommon, hleaf, ok_bind, push_eq _ hfirst, ok_bind, push_eq]
    · exact ⟨_, rfl⟩
    · intro N hN
      rw [List.length_append, List.length_singleton]
      exact hfits N hN

end Split

end Room

/-! ### What an insertion adds -/

section Grows

variable {capacity : Option ℕ} {nodes : List (Node w D)} {p : Prefix w} {d : D}

structure Missing (nodes : List (Node w D)) (p : Prefix w) (new : List (Prefix w)) : Prop where
  nodup : (keys nodes ++ new).Nodup
  mem : p ∈ new
  parting : ∀ q ∈ new, q = p ∨ ∃ c ∈ keys nodes, q = p ⊓ c ∧ ¬c ≤ p

section Turn

variable {i : ℕ} {n : Node w D}

theorem key_lt_of_below (h : Invariant (skeletons nodes)) (hn : nodes[i]? = some n) {branch : Bool}
    (hbelow : (Node.leaf p.network p.len d).toSkeleton.Below n.toSkeleton branch) : n.key < p := by
  have hlt : n.key.len < p.len := (h.key_len hn).trans_lt hbelow.1
  refine lt_of_le_of_ne ⟨hlt.le, ?_⟩ fun heq => hlt.ne (congrArg Prefix.len heq)
  rw [h.key_len hn, h.key_network hn]
  exact hbelow.2.1

theorem bitAt_eq_of_lt (h : Invariant (skeletons nodes)) (hn : nodes[i]? = some n) (hlt : n.key < p)
    {q : Prefix w} (hq : n.key < q) (hle : q ≤ p) :
    q.network.getMsbD n.key.len = bitAt p.network n.prefixLen := by
  have hlen := Prefix.len_lt hlt
  rw [h.key_len hn] at hlen
  rw [bitAt_eq (hlen.trans_le p.len_le), ← h.key_len hn]
  exact (Prefix.bit_lt (Prefix.len_lt hq) hle.2).symm

theorem missing_of_no_child (h : Invariant (skeletons nodes)) (hn : nodes[i]? = some n)
    (hlt : n.key < p) (hnone : n.child (bitAt p.network n.prefixLen) = none) :
    Missing nodes p [p] := by
  refine ⟨?_, List.mem_singleton_self p, fun q hq => .inl (List.mem_singleton.mp hq)⟩
  rw [List.nodup_append]
  refine ⟨h.keys_nodup, List.nodup_singleton p, fun q hq q' hq' heq => ?_⟩
  rw [heq, List.mem_singleton.mp hq'] at hq
  obtain ⟨c, -, hc, -⟩ := h.exists_child hn hq hlt
  rw [bitAt_eq_of_lt h hn hlt hlt le_rfl, hnone] at hc
  cases hc

variable {cIdx : NodeIndex} {c : Node w D}

theorem not_mem_keys_of_diverges (h : Invariant (skeletons nodes)) (hn : nodes[i]? = some n)
    (hlt : n.key < p) (hcIdx : n.child (bitAt p.network n.prefixLen) = some cIdx)
    (hc : nodes[decodeNodeIndex cIdx]? = some c) (hnot : ¬c.key ≤ p) {q : Prefix w}
    (hq : n.key < q) (hle : q ≤ p) : q ∉ keys nodes := by
  intro hmem
  obtain ⟨c', k, hc', hk, -, hkq⟩ := h.exists_child hn hmem hq
  rw [bitAt_eq_of_lt h hn hlt hq hle, hcIdx] at hc'
  cases hc'
  rw [hc] at hk
  cases hk
  exact hnot (hkq.trans hle)

theorem Diverges.not_le (hdiv : Diverges n c p.network p.len
    (commonPrefixLen p.network p.len c.pfx c.prefixLen)) (h : Invariant (skeletons nodes))
    {j : ℕ} (hc : nodes[j]? = some c) : ¬c.key ≤ p := by
  rintro ⟨hlen, hagree⟩
  rw [h.key_len hc] at hlen hagree
  rw [h.key_network hc] at hagree
  exact hdiv.differs (hdiv.lt_child.trans_le hlen) (hagree _ hdiv.lt_child).symm

theorem common_len (h : Invariant (skeletons nodes)) {j : ℕ} (hc : nodes[j]? = some c) :
    (p ⊓ c.key).len = commonPrefixLen p.network p.len c.pfx c.prefixLen := by
  change commonPrefixLen p.network p.len c.key.network c.key.len = _
  rw [h.key_len hc, h.key_network hc]

theorem intermediateNode_key (h : Invariant (skeletons nodes)) {j : ℕ} (hc : nodes[j]? = some c)
    (old : Bool) (stored : NodeIndex) (data : Option D) :
    (intermediateNode p.network (commonPrefixLen p.network p.len c.pfx c.prefixLen) old stored
      data).key = p ⊓ c.key := by
  apply Skeleton.key_eq
  · rw [← common_len h hc]
    rfl
  · exact (common_len h hc).symm

theorem missing_of_diverges (h : Invariant (skeletons nodes)) (hn : nodes[i]? = some n)
    (hlt : n.key < p) (hcIdx : n.child (bitAt p.network n.prefixLen) = some cIdx)
    (hc : nodes[decodeNodeIndex cIdx]? = some c)
    (hdiv : Diverges n c p.network p.len (commonPrefixLen p.network p.len c.pfx c.prefixLen)) :
    Missing nodes p (if p ⊓ c.key = p then [p] else [p ⊓ c.key, p]) := by
  have hnot := hdiv.not_le h hc
  have hfresh : ∀ q, n.key < q → q ≤ p → q ∉ keys nodes := fun q =>
    not_mem_keys_of_diverges h hn hlt hcIdx hc hnot
  have hsplit : n.key < p ⊓ c.key := by
    have hlen : n.key.len < (p ⊓ c.key).len := by
      rw [h.key_len hn, common_len h hc]
      exact hdiv.above
    have hle : n.key ≤ c.key :=
      (h.key_le_iff hc hn).mpr (child_below h hn hcIdx hc).extends
    exact lt_of_le_of_ne (le_inf hlt.le hle) fun heq => hlen.ne (congrArg Prefix.len heq)
  have hparting : ∀ q ∈ [p ⊓ c.key, p], q = p ∨ ∃ k ∈ keys nodes, q = p ⊓ k ∧ ¬k ≤ p := by
    intro q hq
    rcases List.mem_cons.mp hq with hq | hq
    · exact .inr ⟨c.key, mem_keys.mpr ⟨_, c, hc, rfl⟩, hq, hnot⟩
    · exact .inl (List.mem_singleton.mp hq)
  split
  · refine ⟨?_, List.mem_singleton_self p, fun q hq => .inl (List.mem_singleton.mp hq)⟩
    rw [List.nodup_append]
    refine ⟨h.keys_nodup, List.nodup_singleton p, fun q hq q' hq' heq => ?_⟩
    rw [heq, List.mem_singleton.mp hq'] at hq
    exact hfresh p hlt le_rfl hq
  · rename_i hne
    refine ⟨?_, by simp, hparting⟩
    rw [List.nodup_append]
    refine ⟨h.keys_nodup, by simp [hne], fun q hq q' hq' heq => ?_⟩
    rw [heq] at hq
    rcases List.mem_cons.mp hq' with hq' | hq'
    · exact hfresh q' (hq' ▸ hsplit) (hq' ▸ inf_le_left) hq
    · rw [List.mem_singleton.mp hq'] at hq
      exact hfresh p hlt le_rfl hq

inductive Grows (capacity : Option ℕ) (nodes : List (Node w D)) (p : Prefix w) :
    Except AllowedIPsError (Option D) × Trie w D → Prop
  | found {old : Option D} {t' : Trie w D} (mem : p ∈ keys nodes)
      (same : keys t'.nodes = keys nodes) : Grows capacity nodes p (.ok old, t')
  | added {new : List (Prefix w)} {t' : Trie w D} (missing : Missing nodes p new)
      (fits : nodes.length + new.length ≤ nodeLimit capacity)
      (grown : keys t'.nodes = keys nodes ++ new) : Grows capacity nodes p (.ok none, t')
  | full {new : List (Prefix w)} (missing : Missing nodes p new)
      (exceeds : nodeLimit capacity < nodes.length + new.length) :
      Grows capacity nodes p (.error .full, ⟨nodes⟩)

theorem overwrite_grows (hn : nodes[i]? = some n) (hpfx : n.pfx = p.network)
    (hlen : n.prefixLen = p.len) : Grows capacity nodes p
      (.ok n.data, ⟨nodes.set i { n with pfx := p.network, data := some d }⟩) := by
  have hkey : n.key = p := Skeleton.key_eq p hpfx hlen
  have hsame : ({ n with pfx := p.network, data := some d } : Node w D).key = n.key := by
    rw [hkey]
    exact Skeleton.key_eq p rfl hlen
  exact .found (mem_keys.mpr ⟨i, n, hn, hkey⟩) (keys_set hn hsame)

theorem hang_grows (h : Invariant (skeletons nodes)) (hn : nodes[i]? = some n) (hlt : n.key < p)
    (hnone : n.child (bitAt p.network n.prefixLen) = none) : Grows capacity nodes p
      (outcome nodes (hangLeaf capacity nodes i n (bitAt p.network n.prefixLen)
        (Node.leaf p.network p.len d))) := by
  have hmissing := missing_of_no_child h hn hlt hnone
  rcases hangLeaf_cases capacity nodes i n (bitAt p.network n.prefixLen)
    (Node.leaf p.network p.len d) with ⟨hroom, index, hok⟩ | ⟨hfull, e, hok⟩
  · rw [hok]
    refine .added hmissing hroom ((keys_linked hn _ index).trans ?_)
    have hleaf : (Node.leaf p.network p.len d).key = p := Skeleton.key_eq p rfl rfl
    rw [keys_singleton, hleaf]
  · rw [hok]
    exact .full hmissing hfull

theorem inf_eq_self_iff (h : Invariant (skeletons nodes)) {j : ℕ} (hc : nodes[j]? = some c) :
    p ⊓ c.key = p ↔ commonPrefixLen p.network p.len c.pfx c.prefixLen = p.len := by
  rw [← common_len h hc]
  refine ⟨fun heq => by rw [heq], fun heq => le_antisymm inf_le_left ?_⟩
  by_contra hnot
  exact (Prefix.len_lt (lt_of_le_not_ge inf_le_left hnot)).ne heq

theorem split_grows (h : Invariant (skeletons nodes)) (hn : nodes[i]? = some n) (hlt : n.key < p)
    (hcIdx : n.child (bitAt p.network n.prefixLen) = some cIdx)
    (hc : nodes[decodeNodeIndex cIdx]? = some c)
    (hdiv : Diverges n c p.network p.len (commonPrefixLen p.network p.len c.pfx c.prefixLen)) :
    Grows capacity nodes p (outcome nodes (splitChild capacity nodes i n (bitAt p.network n.prefixLen)
      (decodeNodeIndex cIdx) c (commonPrefixLen p.network p.len c.pfx c.prefixLen) p.network p.len
      d)) := by
  have hmissing := missing_of_diverges h hn hlt hcIdx hc hdiv
  have hnew : (if p ⊓ c.key = p then [p] else [p ⊓ c.key, p]).length =
      if commonPrefixLen p.network p.len c.pfx c.prefixLen = p.len then 1 else 2 := by
    simp only [inf_eq_self_iff h hc]
    split <;> rfl
  cases hok : splitChild capacity nodes i n (bitAt p.network n.prefixLen) (decodeNodeIndex cIdx) c
      (commonPrefixLen p.network p.len c.pfx c.prefixLen) p.network p.len d with
  | error e =>
    refine .full hmissing (not_le.mp fun hroom => ?_)
    rw [hnew] at hroom
    have hfits : ∃ nodes', splitChild capacity nodes i n (bitAt p.network n.prefixLen)
        (decodeNodeIndex cIdx) c (commonPrefixLen p.network p.len c.pfx c.prefixLen) p.network p.len
        d = .ok nodes' := splitChild_of_fits cIdx hroom
    obtain ⟨nodes', hok'⟩ := hfits
    cases hok.symm.trans hok'
  | ok nodes' =>
    have hfits := splitChild_fits hok
    rw [← hnew] at hfits
    refine .added hmissing hfits ?_
    obtain ⟨mIdx, stored, -, -, hcases⟩ := splitChild_cases hok
    have hm := fun data : Option D =>
      intermediateNode_key (p := p) h hc (bitAt c.pfx (commonPrefixLen p.network p.len c.pfx c.prefixLen))
        stored data
    rcases hcases with ⟨hcommon, rfl⟩ | ⟨hcommon, leafIdx, -, rfl⟩
    · rw [if_pos ((inf_eq_self_iff h hc).mpr hcommon)]
      refine (keys_linked hn _ mIdx).trans ?_
      rw [keys_singleton, hm, (inf_eq_self_iff h hc).mpr hcommon]
    · rw [if_neg (mt (inf_eq_self_iff h hc).mp hcommon), List.append_assoc]
      refine (keys_linked hn _ mIdx).trans ?_
      have hleaf : (Node.leaf p.network p.len d).key = p := Skeleton.key_eq p rfl rfl
      rw [keys_pair, setChild_key, hm, hleaf]

end Turn

theorem Ended.grows (h : Invariant (skeletons nodes))
    {r : Except AllowedIPsError (Option D) × Trie w D}
    (hend : Ended capacity nodes p.network p.len d r) : Grows capacity nodes p r := by
  cases hend with
  | overwrite hn hpfx hlen => exact overwrite_grows hn hpfx hlen
  | hang hn hnone hbelow => exact hang_grows h hn (key_lt_of_below h hn hbelow) hnone
  | split hn hcIdx hc hbelow hdiv =>
    exact split_grows h hn (key_lt_of_below h hn hbelow) hcIdx hc hdiv

end Grows

structure Spans (capacity : Option ℕ) (t : Trie w D) (s : Finset (Prefix w)) : Prop where
  invariant : Invariant (skeletons t.nodes)
  keys_subset : ∀ q ∈ keys t.nodes, q ∈ spanned s
  subset_keys : ∀ q ∈ s, q ∈ keys t.nodes
  fits : t.nodes.length ≤ nodeLimit capacity

section Spans

variable {capacity : Option ℕ} {t : Trie w D} {s : Finset (Prefix w)} {p : Prefix w}

theorem spans_new (hroom : 1 ≤ nodeLimit capacity) : Spans capacity (Trie.new : Trie w D) ∅ := by
  refine ⟨Invariant.new, fun q hq => ?_, fun q hq => absurd hq (Finset.notMem_empty q), hroom⟩
  have hroot : (Node.new 0#w 0 : Node w D).key = ⊥ := Prefix.eq_bot_of_len (Nat.zero_min w)
  change q ∈ keys [(Node.new 0#w 0 : Node w D)] at hq
  rw [keys_singleton, List.mem_singleton, hroot] at hq
  rw [hq]
  exact bot_mem_spanned ∅

theorem Spans.toFinset_keys (h : Spans capacity t s) : (keys t.nodes).toFinset = spanned s := by
  apply Finset.Subset.antisymm
  · intro q hq
    exact h.keys_subset q (List.mem_toFinset.mp hq)
  · intro q hq
    rw [List.mem_toFinset]
    rcases mem_spanned.mp hq with rfl | ⟨a, ha, b, hb, rfl⟩
    · exact h.invariant.bot_mem_keys
    · exact h.invariant.inf_mem_keys (h.subset_keys a ha) (h.subset_keys b hb)

theorem Spans.length_eq (h : Spans capacity t s) : t.nodes.length = (spanned s).card := by
  rw [← h.toFinset_keys, List.toFinset_card_of_nodup h.invariant.keys_nodup, keys_length]

theorem Missing.subset_spanned {new : List (Prefix w)} (h : Spans capacity t s)
    (hmissing : Missing t.nodes p new) {q : Prefix w} (hq : q ∈ keys t.nodes ++ new) :
    q ∈ spanned (insert p s) := by
  rcases List.mem_append.mp hq with hq | hq
  · exact spanned_mono (Finset.subset_insert p s) (h.keys_subset q hq)
  · rcases hmissing.parting q hq with rfl | ⟨c, hc, rfl, hnot⟩
    · exact mem_spanned_self (Finset.mem_insert_self q s)
    · exact inf_mem_spanned_insert (h.keys_subset c hc) hnot

theorem Spans.of_insert (h : Spans capacity t s) (p : Prefix w) (d : D) :
    ∃ r t', t.insert capacity p.network p.len d = .ok (r, t') ∧
      (((∃ old, r = .ok old) ∧ Spans capacity t' (insert p s)) ∨
        (r = .error .full ∧ nodeLimit capacity < (spanned (insert p s)).card)) := by
  obtain ⟨⟨r, t'⟩, hrun, hend⟩ := t.insert_ended capacity h.invariant p.network p.len_le d
  rw [p.masked] at hend
  have hinvariant := (hend.inserted h.invariant p.len_le p.masked).invariant h.invariant
  refine ⟨r, t', hrun, ?_⟩
  cases hend.grows h.invariant with
  | found hmem hsame =>
    refine .inl ⟨⟨_, rfl⟩, hinvariant, fun q hq => ?_, fun q hq => ?_, ?_⟩
    · rw [hsame] at hq
      exact spanned_mono (Finset.subset_insert p s) (h.keys_subset q hq)
    · rw [hsame]
      rcases Finset.mem_insert.mp hq with rfl | hq
      · exact hmem
      · exact h.subset_keys q hq
    · rw [← keys_length, hsame, keys_length]
      exact h.fits
  | added hmissing hfits hgrown =>
    refine .inl ⟨⟨_, rfl⟩, hinvariant, fun q hq => ?_, fun q hq => ?_, ?_⟩
    · rw [hgrown] at hq
      exact hmissing.subset_spanned h hq
    · rw [hgrown, List.mem_append]
      rcases Finset.mem_insert.mp hq with rfl | hq
      · exact .inr hmissing.mem
      · exact .inl (h.subset_keys q hq)
    · rw [← keys_length, hgrown, List.length_append, keys_length]
      exact hfits
  | @full new hmissing hexceeds =>
    refine .inr ⟨rfl, hexceeds.trans_le ?_⟩
    rw [← keys_length, ← List.length_append, ← List.toFinset_card_of_nodup hmissing.nodup]
    refine Finset.card_le_card fun q hq => ?_
    exact hmissing.subset_spanned h (List.mem_toFinset.mp hq)

end Spans

end Tendrilix.AllowedIps
