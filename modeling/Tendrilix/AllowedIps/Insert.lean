import Tendrilix.AllowedIps.Invariant

/-!
# Insertion keeps the invariant

Each turn of the insertion loop is summarised once, in `insertStep_cases`; the run lemma
`insertLoop_ended` follows by induction on the fuel, which bounds the number of network bits still
to be matched.
-/

namespace Tendrilix.AllowedIps

open PrefixWord

variable {w : ℕ} {D : Type}

def skeletons (nodes : List (Node w D)) : List (Skeleton w) := nodes.map Node.toSkeleton

def entries (nodes : List (Node w D)) : List (D × BitVec w × ℕ) := nodes.filterMap Node.entry

theorem skeletons_get {nodes : List (Node w D)} {i : ℕ} {n : Node w D} (h : nodes[i]? = some n) :
    (skeletons nodes)[i]? = some n.toSkeleton := by
  simp [skeletons, h]

theorem skeletons_get_iff {nodes : List (Node w D)} {i : ℕ} {k : Skeleton w} :
    (skeletons nodes)[i]? = some k ↔ ∃ n, nodes[i]? = some n ∧ n.toSkeleton = k := by
  simp [skeletons]

theorem skeletons_overwrite {nodes : List (Node w D)} {i : ℕ} {n : Node w D} {pfx : BitVec w}
    (hn : nodes[i]? = some n) (hpfx : n.pfx = pfx) (d : D) :
    skeletons (nodes.set i { n with pfx := pfx, data := some d }) = skeletons nodes := by
  obtain ⟨_, hget⟩ := List.getElem?_eq_some_iff.mp (skeletons_get hn)
  rw [skeletons, List.map_set, ← hpfx]
  change (skeletons nodes).set i n.toSkeleton = skeletons nodes
  rw [← hget]
  exact List.set_getElem_self _

theorem nodeAt_eq_ok {nodes : List (Node w D)} {i : ℕ} {n : Node w D} (h : nodes[i]? = some n) :
    nodeAt nodes i = .ok n := by
  simp [nodeAt, h]

theorem mem_entries_iff {nodes : List (Node w D)} {d : D} {pfx : BitVec w} {len : ℕ} :
    (d, pfx, len) ∈ entries nodes ↔
      ∃ (i : ℕ) (n : Node w D), nodes[i]? = some n ∧ n.data = some d ∧ n.pfx = pfx ∧ n.prefixLen = len := by
  rw [entries, List.mem_filterMap]
  constructor
  · rintro ⟨n, hmem, hn⟩
    obtain ⟨i, hi⟩ := List.mem_iff_getElem?.mp hmem
    rw [Node.entry] at hn
    cases hd : n.data with
    | none => simp [hd] at hn
    | some d' =>
      simp only [hd, Option.map_some, Option.some.injEq, Prod.mk.injEq] at hn
      obtain ⟨rfl, rfl, rfl⟩ := hn
      exact ⟨i, n, hi, hd, rfl, rfl⟩
  · rintro ⟨i, n, hi, hd, rfl, rfl⟩
    exact ⟨n, List.mem_of_getElem? hi, by simp [Node.entry, hd]⟩

theorem entries_set {nodes : List (Node w D)} {i : ℕ} {n n' : Node w D} (h : nodes[i]? = some n)
    (he : n'.entry = n.entry) : entries (nodes.set i n') = entries nodes := by
  induction nodes generalizing i with
  | nil => rfl
  | cons a nodes ih =>
    cases i with
    | zero =>
      simp only [List.getElem?_cons_zero, Option.some.injEq] at h
      subst h
      simp [entries, List.filterMap_cons, he]
    | succ i =>
      have hrest := ih (i := i) (by simpa using h)
      simp only [entries] at hrest
      simp [entries, List.filterMap_cons, hrest]

theorem entries_append (nodes more : List (Node w D)) :
    entries (nodes ++ more) = entries nodes ++ entries more := by
  simp [entries]

section CommonPrefix

variable {a b : BitVec w} {aLen bLen : ℕ}

theorem commonPrefixLen_cases (a b : BitVec w) (aLen bLen : ℕ) :
    (commonPrefixLen a aLen b bLen = min aLen bLen ∧ ∀ i < min aLen bLen, bitAt a i = bitAt b i) ∨
    (commonPrefixLen a aLen b bLen < min aLen bLen ∧
      bitAt a (commonPrefixLen a aLen b bLen) ≠ bitAt b (commonPrefixLen a aLen b bLen) ∧
      ∀ i < commonPrefixLen a aLen b bLen, bitAt a i = bitAt b i) := by
  cases hf : (List.range (min aLen bLen)).find? (fun i => bitAt a i != bitAt b i) with
  | none =>
    have he : commonPrefixLen a aLen b bLen = min aLen bLen := by
      simp only [commonPrefixLen, hf, Option.getD_none]
    refine .inl ⟨he, ?_⟩
    intro i hi
    simpa using List.find?_eq_none.mp hf i (List.mem_range.mpr hi)
  | some j =>
    have he : commonPrefixLen a aLen b bLen = j := by
      simp only [commonPrefixLen, hf, Option.getD_some]
    obtain ⟨hj, hmem, hbefore⟩ := List.find?_range_eq_some.mp hf
    rw [he]
    refine .inr ⟨List.mem_range.mp hmem, by simpa using hj, ?_⟩
    intro i hi
    simpa using hbefore i hi

theorem commonPrefixLen_le : commonPrefixLen a aLen b bLen ≤ min aLen bLen := by
  rcases commonPrefixLen_cases a b aLen bLen with ⟨h, -⟩ | ⟨h, -⟩
  · exact h.le
  · exact h.le

theorem agree_commonPrefixLen (ha : aLen ≤ w) :
    Agree (commonPrefixLen a aLen b bLen) a b := by
  intro i hi
  have hle : commonPrefixLen a aLen b bLen ≤ min aLen bLen := commonPrefixLen_le
  have hw : i < w := by omega
  rw [← bitAt_eq hw, ← bitAt_eq hw]
  rcases commonPrefixLen_cases a b aLen bLen with ⟨h, hall⟩ | ⟨-, -, hall⟩
  · exact hall i (h ▸ hi)
  · exact hall i hi

theorem bit_ne_of_commonPrefixLen_lt (ha : aLen ≤ w)
    (h : commonPrefixLen a aLen b bLen < min aLen bLen) :
    a.getMsbD (commonPrefixLen a aLen b bLen) ≠ b.getMsbD (commonPrefixLen a aLen b bLen) := by
  have hw : commonPrefixLen a aLen b bLen < w := by omega
  rw [← bitAt_eq hw, ← bitAt_eq hw]
  rcases commonPrefixLen_cases a b aLen bLen with ⟨he, -⟩ | ⟨-, hne, -⟩
  · exact absurd he h.ne
  · exact hne

theorem prefixesOverlap_iff (ha : aLen ≤ w) :
    prefixesOverlap a aLen b bLen = true ↔ Agree (min aLen bLen) a b := by
  rw [prefixesOverlap, beq_iff_eq]
  constructor
  · intro h
    rw [← h]
    exact agree_commonPrefixLen ha
  · intro h
    by_contra hne
    have hlt := lt_of_le_of_ne commonPrefixLen_le hne
    exact bit_ne_of_commonPrefixLen_lt ha hlt (h _ hlt)

end CommonPrefix

section Link

variable {nodes : List (Skeleton w)} {nodeIdx : ℕ} {n m : Skeleton w} {branch : Bool}

theorem Linkable.leaf (h : Invariant nodes) (hn : nodes[nodeIdx]? = some n)
    (hnone : n.child branch = none) (hbelow : m.Below n branch) (hle : m.prefixLen ≤ w)
    (hmask : mask m.pfx m.prefixLen = m.pfx) (hchild : ∀ b, m.child b = none) :
    Linkable nodes n branch m := by
  have hempty : ∀ {j : ℕ} {k : Skeleton w}, nodes[j]? = some k → ¬ k.Below n branch := by
    intro j k hk hb
    obtain ⟨c, -, hc, -⟩ := h.child_complete hn hk hb
    rw [hnone] at hc
    exact nomatch hc
  refine ⟨hbelow, hle, hmask, ?_, ?_, ?_⟩
  · intro j k hk hb
    exact absurd hb (hempty hk)
  · intro b c hc
    rw [hchild b] at hc
    exact nomatch hc
  · intro j k b hk hb
    exact absurd (hb.extends.below hbelow) (hempty hk)

theorem Linkable.splice (h : Invariant nodes) (hn : nodes[nodeIdx]? = some n) {c : Skeleton w}
    {cIdx stored : NodeIndex} {old : Bool} (hcIdx : n.child branch = some cIdx)
    (hc : nodes[decodeNodeIndex cIdx]? = some c) (hbelow : m.Below n branch)
    (hmask : mask m.pfx m.prefixLen = m.pfx) (hcm : c.Below m old)
    (hstored : decodeNodeIndex stored = decodeNodeIndex cIdx) (hself : m.child old = some stored)
    (hother : m.child (!old) = none) : Linkable nodes n branch m := by
  -- Whatever lies below `n` on this branch lies below the old child.
  have hunder : ∀ {j : ℕ} {k : Skeleton w}, nodes[j]? = some k → k.Below n branch →
      k.Extends c := by
    intro j k hk hb
    obtain ⟨c', k', hc', hk', he⟩ := h.child_complete hn hk hb
    rw [hcIdx] at hc'
    cases hc'
    rw [hc] at hk'
    cases hk'
    exact he
  refine ⟨hbelow, (hcm.1.le.trans (h.len_le hc)), hmask, ?_, ?_, ?_⟩
  · intro j k hk hb
    have hkc := (hunder hk hb).below hcm
    exact ⟨hkc.1, hkc.2.1, rfl⟩
  · intro b i hi
    by_cases hb : b = old
    · subst hb
      rw [hself] at hi
      cases hi
      exact ⟨c, hstored ▸ hc, hcm⟩
    · have hb' : b = !old := by cases b <;> cases old <;> simp_all
      rw [hb', hother] at hi
      exact nomatch hi
  · intro j k b hk hb
    have hkc := hunder hk (hb.extends.below hbelow)
    have hbit : b = old := hb.2.2.symm.trans (hkc.below hcm).2.2
    subst hbit
    exact ⟨stored, c, hself, hstored ▸ hc, hkc⟩

end Link

structure Added (nodes nodes' : List (Node w D)) (d : D) (pfx : BitVec w) (len : ℕ) : Prop where
  invariant : Invariant (skeletons nodes')
  entries_eq : entries nodes' = entries nodes ++ [(d, pfx, len)]
  fresh : ∀ {i : ℕ} {n : Node w D}, nodes[i]? = some n → ¬ (n.pfx = pfx ∧ n.prefixLen = len)

theorem push_eq_ok {capacity : Option ℕ} {nodes nodes' : List (Node w D)} {m : Node w D}
    (h : push capacity nodes m = .ok nodes') : nodes' = nodes ++ [m] := by
  unfold push at h
  split at h
  · exact (Except.ok.inj h).symm
  · split_ifs at h
    exact (Except.ok.inj h).symm

theorem setChild_entry (n : Node w D) (b : Bool) (index : NodeIndex) :
    (n.setChild b index).entry = n.entry := rfl

theorem skeletons_linked {nodes : List (Node w D)} {nodeIdx : ℕ} {n m : Node w D} {branch : Bool}
    {index : NodeIndex} :
    skeletons ((nodes ++ [m]).set nodeIdx (n.setChild branch index)) =
      linked (skeletons nodes) nodeIdx n.toSkeleton branch index m.toSkeleton := by
  simp [skeletons, linked, List.map_set, Node.setChild]

theorem entries_linked {nodes : List (Node w D)} {nodeIdx : ℕ} {n m : Node w D} {branch : Bool}
    {index : NodeIndex} (hn : nodes[nodeIdx]? = some n) :
    entries ((nodes ++ [m]).set nodeIdx (n.setChild branch index)) = entries nodes ++ entries [m] := by
  have hlt := (List.getElem?_eq_some_iff.mp hn).1
  have hn' : (nodes ++ [m])[nodeIdx]? = some n := by rw [List.getElem?_append_left hlt, hn]
  rw [entries_set hn' (setChild_entry n branch index), entries_append]

section Turn

variable {capacity : Option ℕ} {nodes nodes' : List (Node w D)} {nodeIdx : ℕ} {n : Node w D}
  {pfx : BitVec w} {prefixLen : ℕ} {d : D}

theorem fresh_of_no_child (h : Invariant (skeletons nodes)) (hn : nodes[nodeIdx]? = some n)
    {branch : Bool} (hnone : n.child branch = none)
    (hbelow : (Node.leaf pfx prefixLen d).toSkeleton.Below n.toSkeleton branch) {i : ℕ}
    {k : Node w D} (hk : nodes[i]? = some k) : ¬ (k.pfx = pfx ∧ k.prefixLen = prefixLen) := by
  rintro ⟨hp, hl⟩
  obtain ⟨c, -, hc, -⟩ := h.child_complete (skeletons_get hn) (skeletons_get hk)
    ((Skeleton.below_congr hp hl).mpr hbelow)
  rw [hnone] at hc
  exact nomatch hc

theorem added_leaf (h : Invariant (skeletons nodes)) (hn : nodes[nodeIdx]? = some n)
    {branch : Bool} (hnone : n.child branch = none) (hle : prefixLen ≤ w)
    (hmask : mask pfx prefixLen = pfx)
    (hbelow : (Node.leaf pfx prefixLen d).toSkeleton.Below n.toSkeleton branch)
    {newIdx : NodeIndex} (hdec : decodeNodeIndex newIdx = nodes.length) :
    Added nodes ((nodes ++ [Node.leaf pfx prefixLen d]).set nodeIdx (n.setChild branch newIdx))
      d pfx prefixLen := by
  refine ⟨?_, ?_, fun hk => fresh_of_no_child h hn hnone hbelow hk⟩
  · rw [skeletons_linked]
    exact h.link (skeletons_get hn)
      (.leaf h (skeletons_get hn) hnone hbelow hle hmask fun _ => rfl) (by simp [skeletons, hdec])
  · rw [entries_linked hn]
    rfl

theorem hangLeaf_added (h : Invariant (skeletons nodes)) (hn : nodes[nodeIdx]? = some n)
    {branch : Bool} (hnone : n.child branch = none) (hle : prefixLen ≤ w)
    (hmask : mask pfx prefixLen = pfx)
    (hbelow : (Node.leaf pfx prefixLen d).toSkeleton.Below n.toSkeleton branch)
    (hok : hangLeaf capacity nodes nodeIdx n branch (Node.leaf pfx prefixLen d) = .ok nodes') :
    Added nodes nodes' d pfx prefixLen := by
  obtain ⟨newIdx, henc, hok⟩ := bind_ok_iff.mp hok
  obtain ⟨pushed, hpush, hok⟩ := bind_ok_iff.mp hok
  rw [push_eq_ok hpush] at hok
  cases hok
  exact added_leaf h hn hnone hle hmask hbelow (decode_of_encode henc)

def intermediateNode (pfx : BitVec w) (common : ℕ) (old : Bool) (stored : NodeIndex)
    (data : Option D) : Node w D :=
  { (Node.new (mask pfx common) common : Node w D).setChild old stored with data := data }

theorem splitChild_cases {branch : Bool} {childIdx common : ℕ} {c : Node w D}
    (hok : splitChild capacity nodes nodeIdx n branch childIdx c common pfx prefixLen d
      = .ok nodes') :
    ∃ mIdx stored, decodeNodeIndex mIdx = nodes.length ∧ decodeNodeIndex stored = childIdx ∧
      ((common = prefixLen ∧ nodes' =
          (nodes ++ [intermediateNode pfx common (bitAt c.pfx common) stored (some d)]).set nodeIdx
            (n.setChild branch mIdx)) ∨
       (common ≠ prefixLen ∧ ∃ leafIdx, decodeNodeIndex leafIdx = nodes.length + 1 ∧ nodes' =
          ((nodes ++ [(intermediateNode pfx common (bitAt c.pfx common) stored none).setChild
            (bitAt pfx common) leafIdx]) ++ [Node.leaf pfx prefixLen d]).set nodeIdx
            (n.setChild branch mIdx))) := by
  simp only [splitChild] at hok
  by_cases hfull : capacity.any (fun N => decide (N < nodes.length + if common = prefixLen then 1 else 2))
  · rw [if_pos hfull] at hok
    exact nomatch hok
  · rw [if_neg hfull] at hok
    obtain ⟨mIdx, hm, hok⟩ := bind_ok_iff.mp hok
    obtain ⟨stored, hs, hok⟩ := bind_ok_iff.mp hok
    refine ⟨mIdx, stored, decode_of_encode hm, decode_of_encode hs, ?_⟩
    by_cases hc : common = prefixLen
    · rw [if_pos hc] at hok
      obtain ⟨pushed, hpush, hok⟩ := bind_ok_iff.mp hok
      rw [push_eq_ok hpush] at hok
      exact .inl ⟨hc, (Except.ok.inj hok).symm⟩
    · rw [if_neg hc] at hok
      obtain ⟨leafIdx, hleaf, hok⟩ := bind_ok_iff.mp hok
      obtain ⟨pushed, hpush, hok⟩ := bind_ok_iff.mp hok
      obtain ⟨pushed', hpush', hok⟩ := bind_ok_iff.mp hok
      rw [push_eq_ok hpush', push_eq_ok hpush] at hok
      exact .inr ⟨hc, leafIdx, decode_of_encode hleaf, (Except.ok.inj hok).symm⟩

theorem set_append_swap {α : Type} {l : List α} {i : ℕ} (hi : i < l.length) (a a' b x : α) :
    (((l ++ [a]).set i x) ++ [b]).set l.length a' = ((l ++ [a']) ++ [b]).set i x := by
  simp only [List.append_assoc, List.cons_append, List.nil_append, List.set_append_left _ _ hi]
  rw [List.set_append_right _ _ (by simp)]
  simp

structure Diverges (n c : Node w D) (pfx : BitVec w) (prefixLen common : ℕ) : Prop where
  above : n.prefixLen < common
  le_new : common ≤ prefixLen
  lt_child : common < c.prefixLen
  agree : Agree common pfx c.pfx
  differs : common < prefixLen → pfx.getMsbD common ≠ c.pfx.getMsbD common

section Split

variable {branch : Bool} {cIdx : NodeIndex} {c : Node w D} {common : ℕ}

theorem child_below (h : Invariant (skeletons nodes)) (hn : nodes[nodeIdx]? = some n)
    (hcIdx : n.child branch = some cIdx) (hc : nodes[decodeNodeIndex cIdx]? = some c) :
    c.toSkeleton.Below n.toSkeleton branch := by
  obtain ⟨k, hk, hkb⟩ := h.child_sound (skeletons_get hn) hcIdx
  rw [skeletons_get hc] at hk
  cases hk
  exact hkb

theorem diverges_of_ne (hle : prefixLen ≤ w) (hcn : c.toSkeleton.Below n.toSkeleton branch)
    (hbelow : (Node.leaf pfx prefixLen d).toSkeleton.Below n.toSkeleton branch)
    (hne : commonPrefixLen pfx prefixLen c.pfx c.prefixLen ≠ c.prefixLen) :
    Diverges n c pfx prefixLen (commonPrefixLen pfx prefixLen c.pfx c.prefixLen) := by
  have hmin : commonPrefixLen pfx prefixLen c.pfx c.prefixLen ≤ min prefixLen c.prefixLen :=
    commonPrefixLen_le
  have hdiff : commonPrefixLen pfx prefixLen c.pfx c.prefixLen < min prefixLen c.prefixLen → _ :=
    bit_ne_of_commonPrefixLen_lt hle
  have hlt : n.prefixLen < prefixLen := hbelow.1
  have hltc := hcn.1
  refine ⟨?_, by omega, by omega, agree_commonPrefixLen hle, fun h => hdiff (by omega)⟩
  by_contra hcon
  have hbits : Agree (n.prefixLen + 1) pfx c.pfx :=
    (hbelow.2.1.symm.trans hcn.2.1).succ (hbelow.2.2.trans hcn.2.2.symm)
  exact hdiff (by omega) (hbits _ (by omega))

theorem Diverges.fresh (hdiv : Diverges n c pfx prefixLen common)
    (h : Invariant (skeletons nodes)) (hn : nodes[nodeIdx]? = some n)
    (hcIdx : n.child branch = some cIdx) (hc : nodes[decodeNodeIndex cIdx]? = some c)
    (hbelow : (Node.leaf pfx prefixLen d).toSkeleton.Below n.toSkeleton branch) {i : ℕ}
    {k : Node w D} (hk : nodes[i]? = some k) : ¬ (k.pfx = pfx ∧ k.prefixLen = prefixLen) := by
  rintro ⟨hp, hl⟩
  obtain ⟨c', k', hc', hk', he⟩ := h.child_complete (skeletons_get hn) (skeletons_get hk)
    ((Skeleton.below_congr hp hl).mpr hbelow)
  rw [hcIdx] at hc'
  cases hc'
  rw [skeletons_get hc] at hk'
  cases hk'
  have hlen : c.prefixLen ≤ prefixLen := hl ▸ he.1
  have hagree : Agree c.prefixLen c.pfx pfx := hp ▸ he.2
  exact hdiv.differs (hdiv.lt_child.trans_le hlen) (hagree _ hdiv.lt_child).symm

theorem Diverges.linkable (hdiv : Diverges n c pfx prefixLen common)
    (h : Invariant (skeletons nodes)) (hn : nodes[nodeIdx]? = some n)
    (hcIdx : n.child branch = some cIdx) (hc : nodes[decodeNodeIndex cIdx]? = some c)
    (hle : prefixLen ≤ w)
    (hbelow : (Node.leaf pfx prefixLen d).toSkeleton.Below n.toSkeleton branch)
    {stored : NodeIndex} (hstored : decodeNodeIndex stored = decodeNodeIndex cIdx)
    (data : Option D) : Linkable (skeletons nodes) n.toSkeleton branch
      (intermediateNode pfx common (bitAt c.pfx common) stored data).toSkeleton := by
  have hcw : common ≤ w := hdiv.le_new.trans hle
  have hltw : common < w := hdiv.lt_child.trans_le (h.len_le (skeletons_get hc))
  have hbelow' : (intermediateNode pfx common (bitAt c.pfx common) stored data).toSkeleton.Below
      n.toSkeleton branch := by
    refine ⟨hdiv.above, hbelow.2.1.trans (agree_mask hcw hdiv.above.le).symm, ?_⟩
    exact (agree_mask hcw le_rfl _ hdiv.above).trans hbelow.2.2
  have hchild : c.toSkeleton.Below
      (intermediateNode pfx common (bitAt c.pfx common) stored data).toSkeleton
      (bitAt c.pfx common) :=
    ⟨hdiv.lt_child, (agree_mask hcw le_rfl).trans hdiv.agree, (bitAt_eq hltw).symm⟩
  exact .splice h (skeletons_get hn) hcIdx (skeletons_get hc) hbelow' (mask_mask hcw) hchild
    hstored (Skeleton.setChild_child_self _ _ _) (Skeleton.setChild_child_ne _ _ (by simp))

theorem splitChild_added (h : Invariant (skeletons nodes)) (hn : nodes[nodeIdx]? = some n)
    (hcIdx : n.child branch = some cIdx) (hc : nodes[decodeNodeIndex cIdx]? = some c)
    (hle : prefixLen ≤ w) (hmask : mask pfx prefixLen = pfx)
    (hbelow : (Node.leaf pfx prefixLen d).toSkeleton.Below n.toSkeleton branch)
    (hdiv : Diverges n c pfx prefixLen common)
    (hok : splitChild capacity nodes nodeIdx n branch (decodeNodeIndex cIdx) c common pfx
      prefixLen d = .ok nodes') : Added nodes nodes' d pfx prefixLen := by
  have hlt := (List.getElem?_eq_some_iff.mp hn).1
  have hcw : common ≤ w := hdiv.le_new.trans hle
  obtain ⟨mIdx, stored, hmIdx, hstored, hcases⟩ := splitChild_cases hok
  have hinv : ∀ data : Option D, Invariant (skeletons ((nodes ++
      [intermediateNode pfx common (bitAt c.pfx common) stored data]).set nodeIdx
        (n.setChild branch mIdx))) := by
    intro data
    rw [skeletons_linked]
    exact h.link (skeletons_get hn) (hdiv.linkable h hn hcIdx hc hle hbelow hstored data)
      (by simp [skeletons, hmIdx])
  have hfresh := fun {i : ℕ} {k : Node w D} => hdiv.fresh (i := i) (k := k) h hn hcIdx hc hbelow
  rcases hcases with ⟨hcp, rfl⟩ | ⟨hcp, leafIdx, hleafIdx, rfl⟩
  · refine ⟨hinv _, ?_, hfresh⟩
    rw [entries_linked hn, hcp]
    simp [entries, intermediateNode, Node.entry, Node.setChild, Skeleton.setChild, Node.new, hmask]
  · have hcp' : common < prefixLen := lt_of_le_of_ne hdiv.le_new hcp
    have hbit : bitAt pfx common = pfx.getMsbD common := bitAt_eq (by omega)
    have hbit' : bitAt c.pfx common = c.pfx.getMsbD common :=
      bitAt_eq (hdiv.lt_child.trans_le (h.len_le (skeletons_get hc)))
    have hbranch : bitAt pfx common ≠ bitAt c.pfx common := by
      rw [hbit, hbit']
      exact hdiv.differs hcp'
    have hm : ((nodes ++ [intermediateNode pfx common (bitAt c.pfx common) stored none]).set nodeIdx
        (n.setChild branch mIdx))[nodes.length]? =
          some (intermediateNode pfx common (bitAt c.pfx common) stored none) := by
      rw [List.getElem?_set_ne (by omega)]
      simp
    have hleaf : (Node.leaf pfx prefixLen d).toSkeleton.Below
        (intermediateNode pfx common (bitAt c.pfx common) stored (none : Option D)).toSkeleton
        (bitAt pfx common) := ⟨hcp', agree_mask hcw le_rfl, hbit.symm⟩
    have hidx : decodeNodeIndex leafIdx = ((nodes ++ [intermediateNode pfx common
        (bitAt c.pfx common) stored none]).set nodeIdx (n.setChild branch mIdx)).length := by
      simp [hleafIdx]
    have hadd := added_leaf (hinv none) hm (Skeleton.setChild_child_ne _ _ hbranch) hle hmask
      hleaf hidx
    rw [set_append_swap hlt] at hadd
    refine ⟨hadd.invariant, ?_, hfresh⟩
    rw [hadd.entries_eq, entries_linked hn]
    simp [entries, intermediateNode, Node.entry, Node.setChild, Node.new]

end Split

def outcome (nodes : List (Node w D)) :
    Except AllowedIPsError (List (Node w D)) → Except AllowedIPsError (Option D) × Trie w D
  | .ok nodes' => (.ok none, ⟨nodes'⟩)
  | .error _ => (.error .full, ⟨nodes⟩)

inductive Ended (capacity : Option ℕ) (nodes : List (Node w D)) (pfx : BitVec w) (prefixLen : ℕ)
    (d : D) : Except AllowedIPsError (Option D) × Trie w D → Prop
  | overwrite {i : ℕ} {n : Node w D} (node : nodes[i]? = some n) (pfx_eq : n.pfx = pfx)
      (len_eq : n.prefixLen = prefixLen) :
      Ended capacity nodes pfx prefixLen d
        (.ok n.data, ⟨nodes.set i { n with pfx := pfx, data := some d }⟩)
  | hang {i : ℕ} {n : Node w D} (node : nodes[i]? = some n)
      (no_child : n.child (bitAt pfx n.prefixLen) = none)
      (below : (Node.leaf pfx prefixLen d).toSkeleton.Below n.toSkeleton (bitAt pfx n.prefixLen)) :
      Ended capacity nodes pfx prefixLen d
        (outcome nodes (hangLeaf capacity nodes i n (bitAt pfx n.prefixLen)
          (Node.leaf pfx prefixLen d)))
  | split {i : ℕ} {n : Node w D} {cIdx : NodeIndex} {c : Node w D} (node : nodes[i]? = some n)
      (stored : n.child (bitAt pfx n.prefixLen) = some cIdx)
      (child : nodes[decodeNodeIndex cIdx]? = some c)
      (below : (Node.leaf pfx prefixLen d).toSkeleton.Below n.toSkeleton (bitAt pfx n.prefixLen))
      (diverges : Diverges n c pfx prefixLen (commonPrefixLen pfx prefixLen c.pfx c.prefixLen)) :
      Ended capacity nodes pfx prefixLen d
        (outcome nodes (splitChild capacity nodes i n (bitAt pfx n.prefixLen) (decodeNodeIndex cIdx)
          c (commonPrefixLen pfx prefixLen c.pfx c.prefixLen) pfx prefixLen d))

/-- A turn either ends the loop or moves to a deeper node whose prefix contains the new one. -/
theorem insertStep_cases (capacity : Option ℕ) (h : Invariant (skeletons nodes))
    (hn : nodes[nodeIdx]? = some n) (hle : prefixLen ≤ w) (hmask : mask pfx prefixLen = pfx)
    (hext : (Node.leaf pfx prefixLen d).toSkeleton.Extends n.toSkeleton) :
    (∃ childIdx c, nodes[childIdx]? = some c ∧ n.prefixLen < c.prefixLen ∧
      (Node.leaf pfx prefixLen d).toSkeleton.Extends c.toSkeleton ∧
      insertStep capacity nodes pfx prefixLen d nodeIdx = .ok (.descend childIdx)) ∨
    ∃ r, Ended capacity nodes pfx prefixLen d r ∧ ∀ fuel,
      insertLoop capacity nodes pfx prefixLen d (fuel + 1) nodeIdx = .ok r := by
  by_cases hlen : n.prefixLen = prefixLen
  · have hpfx : n.pfx = pfx := by
      rw [← hmask, ← hlen]
      exact ((mask_eq_iff (hlen ▸ hle) (h.masked (skeletons_get hn))).mpr hext.2).symm
    refine .inr ⟨_, .overwrite hn hpfx hlen, fun fuel => ?_⟩
    simp [insertLoop, insertStep, nodeAt_eq_ok hn, hlen]
  · have hlt : n.prefixLen < prefixLen := lt_of_le_of_ne hext.1 hlen
    have hbelow := hext.below_of_lt hlt
    have hbit : bitAt pfx n.prefixLen = pfx.getMsbD n.prefixLen := bitAt_eq (by omega)
    change (Node.leaf pfx prefixLen d).toSkeleton.Below n.toSkeleton (pfx.getMsbD n.prefixLen)
      at hbelow
    rw [← hbit] at hbelow
    cases hcIdx : n.child (bitAt pfx n.prefixLen) with
    | none =>
      have hstep : insertStep capacity nodes pfx prefixLen d nodeIdx = .ok (.ofResult
          (hangLeaf capacity nodes nodeIdx n (bitAt pfx n.prefixLen) (Node.leaf pfx prefixLen d))) := by
        simp [insertStep, nodeAt_eq_ok hn, hlen, hcIdx]
      refine .inr ⟨_, .hang hn hcIdx hbelow, fun fuel => ?_⟩
      rw [insertLoop, hstep]
      cases hangLeaf capacity nodes nodeIdx n (bitAt pfx n.prefixLen) (Node.leaf pfx prefixLen d) <;> rfl
    | some cIdx =>
      obtain ⟨k, hk, hkb⟩ := h.child_sound (skeletons_get hn) hcIdx
      obtain ⟨c, hc, rfl⟩ := skeletons_get_iff.mp hk
      by_cases hcommon : commonPrefixLen pfx prefixLen c.pfx c.prefixLen = c.prefixLen
      · have hmin : commonPrefixLen pfx prefixLen c.pfx c.prefixLen ≤ min prefixLen c.prefixLen :=
          commonPrefixLen_le
        have hagree : Agree (commonPrefixLen pfx prefixLen c.pfx c.prefixLen) pfx c.pfx :=
          agree_commonPrefixLen hle
        rw [hcommon] at hmin hagree
        refine .inl ⟨_, c, hc, hkb.1, ⟨hmin.trans (min_le_left _ _), hagree.symm⟩, ?_⟩
        simp [insertStep, nodeAt_eq_ok hn, nodeAt_eq_ok hc, hlen, hcIdx, hcommon]
      · have hstep : insertStep capacity nodes pfx prefixLen d nodeIdx = .ok (.ofResult
            (splitChild capacity nodes nodeIdx n (bitAt pfx n.prefixLen) (decodeNodeIndex cIdx) c
              (commonPrefixLen pfx prefixLen c.pfx c.prefixLen) pfx prefixLen d)) := by
          simp [insertStep, nodeAt_eq_ok hn, nodeAt_eq_ok hc, hlen, hcIdx, hcommon]
        refine .inr ⟨_, .split hn hcIdx hc hbelow (diverges_of_ne hle hkb hbelow hcommon),
          fun fuel => ?_⟩
        rw [insertLoop, hstep]
        cases splitChild capacity nodes nodeIdx n (bitAt pfx n.prefixLen) (decodeNodeIndex cIdx) c
          (commonPrefixLen pfx prefixLen c.pfx c.prefixLen) pfx prefixLen d <;> rfl

/-- Every turn that goes on matches more bits, so the loop ends. -/
theorem insertLoop_ended (h : Invariant (skeletons nodes)) (hle : prefixLen ≤ w)
    (hmask : mask pfx prefixLen = pfx) (fuel : ℕ) {nodeIdx : ℕ} {n : Node w D}
    (hn : nodes[nodeIdx]? = some n)
    (hext : (Node.leaf pfx prefixLen d).toSkeleton.Extends n.toSkeleton)
    (hfuel : prefixLen < fuel + n.prefixLen) :
    ∃ r, insertLoop capacity nodes pfx prefixLen d fuel nodeIdx = .ok r ∧
      Ended capacity nodes pfx prefixLen d r := by
  induction fuel generalizing nodeIdx n with
  | zero =>
    have hlen : n.prefixLen ≤ prefixLen := hext.1
    omega
  | succ fuel ih =>
    rcases insertStep_cases capacity h hn hle hmask hext with
      ⟨childIdx, c, hc, hlt, hext', hstep⟩ | ⟨r, hend, hloop⟩
    · obtain ⟨r, hrun, hend⟩ := ih hc hext' (by omega)
      exact ⟨r, by rw [insertLoop, hstep]; exact hrun, hend⟩
    · exact ⟨r, hloop fuel, hend⟩

inductive Inserted (nodes : List (Node w D)) (d : D) (pfx : BitVec w) (len : ℕ) :
    Except AllowedIPsError (Option D) → Trie w D → Prop
  | overwritten {i : ℕ} {n : Node w D} (hn : nodes[i]? = some n) (hp : n.pfx = pfx)
      (hl : n.prefixLen = len) :
      Inserted nodes d pfx len (.ok n.data) ⟨nodes.set i { n with pfx := pfx, data := some d }⟩
  | added {nodes' : List (Node w D)} (h : Added nodes nodes' d pfx len) :
      Inserted nodes d pfx len (.ok none) ⟨nodes'⟩
  | full : Inserted nodes d pfx len (.error .full) ⟨nodes⟩

theorem Inserted.invariant (h : Invariant (skeletons nodes))
    {r : Except AllowedIPsError (Option D)} {t : Trie w D} (hins : Inserted nodes d pfx prefixLen r t) :
    Invariant (skeletons t.nodes) := by
  cases hins with
  | overwritten hn hp hl =>
    rw [skeletons_overwrite hn hp]
    exact h
  | added hadd => exact hadd.invariant
  | full => exact h

theorem Ended.inserted (h : Invariant (skeletons nodes)) (hle : prefixLen ≤ w)
    (hmask : mask pfx prefixLen = pfx) {r : Except AllowedIPsError (Option D) × Trie w D}
    (hend : Ended capacity nodes pfx prefixLen d r) : Inserted nodes d pfx prefixLen r.1 r.2 := by
  cases hend with
  | overwrite hn hpfx hlen => exact .overwritten hn hpfx hlen
  | @hang i n hn hnone hbelow =>
    cases hok : hangLeaf capacity nodes i n (bitAt pfx n.prefixLen) (Node.leaf pfx prefixLen d) with
    | error e => exact .full
    | ok nodes' => exact .added (hangLeaf_added h hn hnone hle hmask hbelow hok)
  | @split i n cIdx c hn hcIdx hc hbelow hdiv =>
    cases hok : splitChild capacity nodes i n (bitAt pfx n.prefixLen) (decodeNodeIndex cIdx) c
        (commonPrefixLen pfx prefixLen c.pfx c.prefixLen) pfx prefixLen d with
    | error e => exact .full
    | ok nodes' => exact .added (splitChild_added h hn hcIdx hc hle hmask hbelow hdiv hok)

end Turn

theorem Trie.insert_ended (capacity : Option ℕ) {t : Trie w D} (h : Invariant (skeletons t.nodes))
    (pfx : BitVec w) {prefixLen : ℕ} (hle : prefixLen ≤ w) (d : D) :
    ∃ r, t.insert capacity pfx prefixLen d = .ok r ∧
      Ended capacity t.nodes (mask pfx prefixLen) prefixLen d r := by
  obtain ⟨k, hk, hk0⟩ := h.root
  obtain ⟨root, hroot, rfl⟩ := skeletons_get_iff.mp hk
  have hr0 : root.prefixLen = 0 := hk0
  refine insertLoop_ended h hle (mask_mask hle) (w + 1) hroot ⟨?_, ?_⟩ ?_
  · rw [hk0]
    exact Nat.zero_le _
  · rw [hk0]
    exact agree_zero _ _
  · omega

theorem Trie.insert_spec (capacity : Option ℕ) {t : Trie w D} (h : Invariant (skeletons t.nodes))
    (pfx : BitVec w) {prefixLen : ℕ} (hle : prefixLen ≤ w) (d : D) :
    ∃ r t', t.insert capacity pfx prefixLen d = .ok (r, t') ∧
      Inserted t.nodes d (mask pfx prefixLen) prefixLen r t' := by
  obtain ⟨⟨r, t'⟩, hrun, hend⟩ := t.insert_ended capacity h pfx hle d
  exact ⟨r, t', hrun, hend.inserted h hle (mask_mask hle)⟩

end Tendrilix.AllowedIps
