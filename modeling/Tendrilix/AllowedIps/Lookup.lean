import Tendrilix.AllowedIps.Insert
import Tendrilix.AllowedIps.PrefixMap

/-!
# The trie of one family refines a prefix map

`Trie.Refines t m` ties an arena to the map of its payload-bearing nodes. Insertion, removal and
clearing preserve it, and lookup, iteration and the overlap test are read off the map, so
structural nodes and lazily removed entries cannot be observed.
-/

namespace Tendrilix.AllowedIps

open PrefixWord

variable {w : ℕ} {D : Type}

structure Trie.Refines (t : Trie w D) (m : PrefixMap w D) : Prop where
  invariant : Invariant (skeletons t.nodes)
  entry_iff : ∀ p d, m p = some d ↔ (d, p.network, p.len) ∈ entries t.nodes

section Find

variable {nodes : List (Node w D)} {key : BitVec w}

def BestUpTo (nodes : List (Node w D)) (key : BitVec w) (k : ℕ) : Option D → Prop
  | some d => ∃ (i : ℕ) (n : Node w D), nodes[i]? = some n ∧ n.data = some d ∧
      Agree n.prefixLen n.pfx key ∧ n.prefixLen ≤ k ∧
      ∀ (j : ℕ) (m : Node w D) (e : D), nodes[j]? = some m → m.data = some e →
        Agree m.prefixLen m.pfx key → m.prefixLen ≤ k → m.prefixLen ≤ n.prefixLen
  | none => ∀ (j : ℕ) (m : Node w D), nodes[j]? = some m → Agree m.prefixLen m.pfx key →
      m.prefixLen ≤ k → m.data = none

theorem BestUpTo.extend {k k' : ℕ} {best : Option D} (hb : BestUpTo nodes key k best)
    (hk : k ≤ k') (hno : ∀ (j : ℕ) (m : Node w D), nodes[j]? = some m →
      Agree m.prefixLen m.pfx key → m.prefixLen ≤ k' → m.prefixLen ≤ k) :
    BestUpTo nodes key k' best := by
  cases best with
  | none =>
    intro j m hm ha hl
    exact hb j m hm ha (hno j m hm ha hl)
  | some d =>
    obtain ⟨i, n, hn, hd, hna, hnk, hmax⟩ := hb
    refine ⟨i, n, hn, hd, hna, hnk.trans hk, ?_⟩
    intro j m e hm he ha hl
    exact hmax j m e hm he ha (hno j m hm ha hl)

theorem BestUpTo.step (h : Invariant (skeletons nodes)) {k i : ℕ} {c : Node w D}
    {best : Option D} (hb : BestUpTo nodes key k best) (hc : nodes[i]? = some c)
    (hca : Agree c.prefixLen c.pfx key) (hk : k < c.prefixLen)
    (hno : ∀ (j : ℕ) (m : Node w D), nodes[j]? = some m → Agree m.prefixLen m.pfx key →
      k < m.prefixLen → c.prefixLen ≤ m.prefixLen) :
    BestUpTo nodes key c.prefixLen (c.data.or best) := by
  -- A node of the length of `c` on the path of `key` is `c` itself.
  have hsame : ∀ (j : ℕ) (m : Node w D), nodes[j]? = some m → Agree m.prefixLen m.pfx key →
      m.prefixLen ≤ c.prefixLen → k < m.prefixLen → m = c := by
    intro j m hm ha hl hkm
    have hlen := le_antisymm hl (hno j m hm ha hkm)
    have hmc : Agree c.prefixLen c.pfx m.pfx := hca.trans (hlen ▸ ha).symm
    have hij := h.unique (skeletons_get hm) (skeletons_get hc) ⟨hlen.ge, hmc⟩
      ⟨hlen.le, by rw [hlen]; exact hmc.symm⟩
    rw [hij, hc] at hm
    exact (Option.some.inj hm).symm
  cases hd : c.data with
  | some d =>
    refine ⟨i, c, hc, hd, hca, le_rfl, ?_⟩
    intro j m e hm he ha hl
    exact hl
  | none =>
    change BestUpTo nodes key c.prefixLen best
    cases best with
    | none =>
      intro j m hm ha hl
      by_cases hkm : k < m.prefixLen
      · rw [hsame j m hm ha hl hkm, hd]
      · exact hb j m hm ha (by omega)
    | some d =>
      obtain ⟨i', n, hn, hnd, hna, hnk, hmax⟩ := hb
      refine ⟨i', n, hn, hnd, hna, hnk.trans hk.le, ?_⟩
      intro j m e hm he ha hl
      by_cases hkm : k < m.prefixLen
      · rw [hsame j m hm ha hl hkm, hd] at he
        exact nomatch he
      · exact hmax j m e hm he ha (by omega)

theorem findLoop_spec (h : Invariant (skeletons nodes)) (fuel : ℕ) {nodeIdx : ℕ} {n : Node w D}
    {best : Option D} (hn : nodes[nodeIdx]? = some n) (hna : Agree n.prefixLen n.pfx key)
    (hb : BestUpTo nodes key n.prefixLen best) (hfuel : w < fuel + n.prefixLen) :
    ∃ r, findLoop nodes key fuel nodeIdx best = .ok r ∧ BestUpTo nodes key w r := by
  have hnw : n.prefixLen ≤ w := h.len_le (skeletons_get hn)
  induction fuel generalizing nodeIdx n best with
  | zero => omega
  | succ fuel ih =>
    by_cases hw : n.prefixLen = w
    · exact ⟨best, by simp [findLoop, nodeAt_eq_ok hn, hw],
        hb.extend hnw fun j m hm ha hl => hl.trans hw.ge⟩
    · have hbit : bitAt key n.prefixLen = key.getMsbD n.prefixLen := bitAt_eq (by omega)
      -- Every longer node on the path of `key` is reached through the child on this branch.
      have hpath : ∀ (j : ℕ) (m : Node w D), nodes[j]? = some m → Agree m.prefixLen m.pfx key →
          n.prefixLen < m.prefixLen → ∃ cIdx c, n.child (bitAt key n.prefixLen) = some cIdx ∧
            nodes[decodeNodeIndex cIdx]? = some c ∧ m.toSkeleton.Extends c.toSkeleton := by
        intro j m hm ha hlt
        have hbelow : m.toSkeleton.Below n.toSkeleton (bitAt key n.prefixLen) :=
          ⟨hlt, hna.trans ((ha.mono hlt.le).symm), by rw [hbit]; exact ha _ hlt⟩
        obtain ⟨cIdx, k, hcIdx, hk, he⟩ := h.child_complete (skeletons_get hn) (skeletons_get hm) hbelow
        obtain ⟨c, hc, rfl⟩ := skeletons_get_iff.mp hk
        exact ⟨cIdx, c, hcIdx, hc, he⟩
      cases hcIdx : n.child (bitAt key n.prefixLen) with
      | none =>
        refine ⟨best, by simp [findLoop, nodeAt_eq_ok hn, hw, hcIdx], hb.extend hnw ?_⟩
        intro j m hm ha _
        by_contra hlt
        obtain ⟨cIdx, -, hc, -⟩ := hpath j m hm ha (by omega)
        rw [hcIdx] at hc
        exact nomatch hc
      | some cIdx =>
        obtain ⟨k, hk, hkb⟩ := h.child_sound (skeletons_get hn) hcIdx
        obtain ⟨c, hc, rfl⟩ := skeletons_get_iff.mp hk
        have hthrough : ∀ (j : ℕ) (m : Node w D), nodes[j]? = some m →
            Agree m.prefixLen m.pfx key → n.prefixLen < m.prefixLen →
            m.toSkeleton.Extends c.toSkeleton := by
          intro j m hm ha hlt
          obtain ⟨cIdx', c', hcIdx', hc', he⟩ := hpath j m hm ha hlt
          rw [hcIdx] at hcIdx'
          cases hcIdx'
          rw [hc] at hc'
          cases hc'
          exact he
        have hcw : c.prefixLen ≤ w := h.len_le (skeletons_get hc)
        have hmask := mask_eq_iff (x := key) hcw (h.masked (skeletons_get hc))
        by_cases hmatch : mask key c.prefixLen = c.pfx
        · have hca := hmask.mp hmatch
          obtain ⟨r, hr, hbest⟩ := ih hc hca (hb.step h hc hca hkb.1
            fun j m hm ha hlt => (hthrough j m hm ha hlt).1) (by have := hkb.1; omega) hcw
          refine ⟨r, ?_, hbest⟩
          rw [findLoop]
          simp only [nodeAt_eq_ok hn, nodeAt_eq_ok hc, hcIdx, hw, hmatch, ok_bind, Option.map_some,
            if_false, ne_eq, not_true_eq_false]
          exact hr
        · refine ⟨best, ?_, hb.extend hnw ?_⟩
          · simp [findLoop, nodeAt_eq_ok hn, nodeAt_eq_ok hc, hcIdx, hw, hmatch]
          · intro j m hm ha _
            by_contra hlt
            have he := hthrough j m hm ha (by omega)
            exact hmatch (hmask.mpr (he.2.trans (ha.mono he.1)))

end Find

namespace Trie

theorem new_refines : (new : Trie w D).Refines PrefixMap.empty := by
  refine ⟨Invariant.new, ?_⟩
  intro p d
  simp [PrefixMap.empty, entries, new, Node.new, Node.entry]

theorem Refines.keys_ne {t : Trie w D} {m : PrefixMap w D} (h : t.Refines m) {i j : ℕ}
    {a b : Node w D} (ha : t.nodes[i]? = some a) (hb : t.nodes[j]? = some b) (hij : i ≠ j) :
    ¬ (a.pfx = b.pfx ∧ a.prefixLen = b.prefixLen) := by
  rintro ⟨hp, hl⟩
  have hab : a.toSkeleton.Extends b.toSkeleton :=
    (Skeleton.extends_congr hp hl rfl rfl).mpr (Skeleton.Extends.refl _)
  have hba : b.toSkeleton.Extends a.toSkeleton :=
    (Skeleton.extends_congr rfl rfl hp hl).mpr (Skeleton.Extends.refl _)
  exact hij (h.invariant.unique (skeletons_get ha) (skeletons_get hb) hab hba)

theorem Refines.prefix_of_node {t : Trie w D} {m : PrefixMap w D} (h : t.Refines m) {i : ℕ}
    {n : Node w D} (hn : t.nodes[i]? = some n) :
    ∃ p : Prefix w, p.network = n.pfx ∧ p.len = n.prefixLen :=
  ⟨⟨n.pfx, n.prefixLen, h.invariant.len_le (skeletons_get hn), h.invariant.masked (skeletons_get hn)⟩,
    rfl, rfl⟩

theorem Refines.data_of_node {t : Trie w D} {m : PrefixMap w D} (h : t.Refines m) {i : ℕ}
    {n : Node w D} (hn : t.nodes[i]? = some n) {p : Prefix w} (hp : p.network = n.pfx)
    (hl : p.len = n.prefixLen) : m p = n.data := by
  have hiff : ∀ d, m p = some d ↔ n.data = some d := by
    intro d
    rw [h.entry_iff, mem_entries_iff]
    constructor
    · rintro ⟨j, k, hk, hd, hkp, hkl⟩
      by_cases hij : i = j
      · subst hij
        rw [hn] at hk
        cases hk
        exact hd
      · exact absurd ⟨hp.symm.trans hkp.symm, hl.symm.trans hkl.symm⟩ (h.keys_ne hn hk hij)
    · intro hd
      exact ⟨i, n, hn, hd, hp.symm, hl.symm⟩
  cases hd : n.data with
  | none =>
    cases hm : m p with
    | none => rfl
    | some d =>
      rw [hd] at hiff
      exact absurd ((hiff d).mp hm) (by simp)
  | some d => exact (hiff d).mpr hd

theorem Refines.overwrite {t : Trie w D} {m : PrefixMap w D} (h : t.Refines m) {i : ℕ}
    {n : Node w D} (hn : t.nodes[i]? = some n) {p : Prefix w} (hp : p.network = n.pfx)
    (hl : p.len = n.prefixLen) (d : D) :
    (⟨t.nodes.set i { n with pfx := p.network, data := some d }⟩ : Trie w D).Refines
      (m.insert p d) := by
  have hlt := (List.getElem?_eq_some_iff.mp hn).1
  constructor
  · rw [skeletons_overwrite hn hp.symm]
    exact h.invariant
  · intro q e
    rw [PrefixMap.insert_eq_some_iff, h.entry_iff, mem_entries_iff, mem_entries_iff]
    constructor
    · rintro (⟨rfl, rfl⟩ | ⟨hq, j, k, hk, hd, hkp, hkl⟩)
      · exact ⟨i, _, List.getElem?_set_self hlt, rfl, rfl, hl.symm⟩
      · have hij : i ≠ j := by
          rintro rfl
          rw [hn] at hk
          cases hk
          apply hq
          cases q
          cases p
          simp_all
        exact ⟨j, k, by rw [List.getElem?_set_ne hij]; exact hk, hd, hkp, hkl⟩
    · rintro ⟨j, k, hk, hd, hkp, hkl⟩
      by_cases hij : i = j
      · subst hij
        rw [List.getElem?_set_self hlt] at hk
        cases hk
        refine .inl ⟨?_, (Option.some.inj hd).symm⟩
        cases q
        cases p
        simp_all
      · rw [List.getElem?_set_ne hij] at hk
        refine .inr ⟨?_, j, k, hk, hd, hkp, hkl⟩
        rintro rfl
        exact h.keys_ne hn hk hij ⟨hp.symm.trans hkp.symm, hl.symm.trans hkl.symm⟩

theorem insert_refines (capacity : Option ℕ) {t : Trie w D} {m : PrefixMap w D} (h : t.Refines m)
    (pfx : BitVec w) {len : ℕ} (hle : len ≤ w) (d : D) {p : Prefix w}
    (hp : p.network = mask pfx len) (hl : p.len = len) :
    (t.insert capacity pfx len d = .ok (.error .full, t)) ∨
    ∃ t', t.insert capacity pfx len d = .ok (.ok (m p), t') ∧ t'.Refines (m.insert p d) := by
  obtain ⟨r, t', hrun, hins⟩ := insert_spec capacity h.invariant pfx hle d
  rw [← hp, ← hl] at hins
  cases hins with
  | overwritten hn hnp hnl =>
    rw [← h.data_of_node hn hnp.symm hnl.symm] at hrun
    exact .inr ⟨_, hrun, h.overwrite hn hnp.symm hnl.symm d⟩
  | added hadd =>
    have hnone : m p = none := by
      cases hm : m p with
      | none => rfl
      | some e =>
        obtain ⟨i, n, hn, -, hnp, hnl⟩ := mem_entries_iff.mp ((h.entry_iff p e).mp hm)
        exact absurd ⟨hnp, hnl⟩ (hadd.fresh hn)
    rw [← hnone] at hrun
    refine .inr ⟨_, hrun, hadd.invariant, ?_⟩
    intro q e
    rw [PrefixMap.insert_eq_some_iff, h.entry_iff, hadd.entries_eq, List.mem_append,
      List.mem_singleton, Prod.mk.injEq, Prod.mk.injEq]
    constructor
    · rintro (⟨rfl, rfl⟩ | ⟨-, hq⟩)
      · exact .inr ⟨rfl, rfl, rfl⟩
      · exact .inl hq
    · rintro (hq | ⟨rfl, hqp, hql⟩)
      · refine .inr ⟨?_, hq⟩
        rintro rfl
        rw [← h.entry_iff, hnone] at hq
        exact nomatch hq
      · refine .inl ⟨?_, rfl⟩
        cases q
        cases p
        simp_all
  | full => exact .inl hrun

theorem entries_removeData (nodes : List (Node w D)) (f : D → Bool) :
    entries (nodes.map (Node.removeData f)) = (entries nodes).filter (fun e => !f e.1) := by
  induction nodes with
  | nil => rfl
  | cons n nodes ih =>
    simp only [entries] at ih
    cases hd : n.data with
    | none => simp [entries, Node.removeData, Node.entry, hd, ih]
    | some d =>
      by_cases hf : f d <;>
        simp [entries, List.filterMap_cons, Node.removeData, Node.entry, hd, hf, ih]

theorem skeletons_removeData (nodes : List (Node w D)) (f : D → Bool) :
    skeletons (nodes.map (Node.removeData f)) = skeletons nodes := by
  simp only [skeletons, List.map_map]
  apply List.map_congr_left
  intro n _
  simp only [Function.comp, Node.removeData]
  split
  · split_ifs <;> rfl
  · rfl

theorem remove_refines {t : Trie w D} {m : PrefixMap w D} (h : t.Refines m) (f : D → Bool) :
    (t.remove f).Refines (m.remove f) := by
  constructor
  · rw [remove, skeletons_removeData]
    exact h.invariant
  · intro p d
    rw [PrefixMap.remove_eq_some_iff, h.entry_iff, remove, entries_removeData, List.mem_filter]
    simp

theorem find_refines {t : Trie w D} {m : PrefixMap w D} (h : t.Refines m) (key : BitVec w) :
    ∃ r, t.find key = .ok r ∧ m.Lookup key r := by
  obtain ⟨k, hk, hk0⟩ := h.invariant.root
  obtain ⟨root, hroot, rfl⟩ := skeletons_get_iff.mp hk
  have hr0 : root.prefixLen = 0 := hk0
  have hbest : BestUpTo t.nodes key root.prefixLen root.data := by
    rw [hr0]
    have hone : ∀ (j : ℕ) (n : Node w D), t.nodes[j]? = some n → n.prefixLen ≤ 0 → n = root := by
      intro j n hn hl
      have hl0 : n.prefixLen = 0 := by omega
      have hj := h.invariant.unique (skeletons_get hn) (skeletons_get hroot)
        ⟨by rw [hk0]; exact Nat.zero_le _, by rw [hk0]; exact agree_zero _ _⟩
        ⟨by rw [hl0]; exact Nat.zero_le _, by rw [hl0]; exact agree_zero _ _⟩
      rw [hj, hroot] at hn
      exact (Option.some.inj hn).symm
    cases hd : root.data with
    | none =>
      intro j n hn _ hl
      rw [hone j n hn hl, hd]
    | some d =>
      refine ⟨0, root, hroot, hd, by rw [hr0]; exact agree_zero _ _, hr0.le, ?_⟩
      intro j n e _ _ _ hl
      exact hl.trans (Nat.zero_le _)
  obtain ⟨r, hr, hbest⟩ := findLoop_spec h.invariant (w + 1) hroot (by rw [hr0]; exact agree_zero _ _)
    hbest (by omega)
  refine ⟨r, by simp only [find, nodeAt_eq_ok hroot, ok_bind]; exact hr, ?_⟩
  have hlive : ∀ p d, m p = some d → p.Contains key → ∃ (j : ℕ) (n : Node w D),
      t.nodes[j]? = some n ∧ n.data = some d ∧ Agree n.prefixLen n.pfx key ∧ n.prefixLen = p.len ∧
        n.prefixLen ≤ w := by
    intro p d hp hpa
    obtain ⟨j, n, hn, hd, hnp, hnl⟩ := mem_entries_iff.mp ((h.entry_iff p d).mp hp)
    exact ⟨j, n, hn, hd, by rw [hnp, hnl]; exact hpa, hnl, hnl ▸ p.len_le⟩
  cases r with
  | none =>
    intro p d hp hpa
    obtain ⟨j, n, hn, hd, hna, -, hnw⟩ := hlive p d hp hpa
    rw [hbest j n hn hna hnw] at hd
    exact nomatch hd
  | some d =>
    obtain ⟨i, n, hn, hd, hna, -, hmax⟩ := hbest
    obtain ⟨p, hp, hl⟩ := h.prefix_of_node hn
    refine ⟨p, by rw [h.data_of_node hn hp hl, hd], by rw [Prefix.Contains, hp, hl]; exact hna, ?_⟩
    intro q e hq hqa
    obtain ⟨j, k, hk, hkd, hka, hkl, hkw⟩ := hlive q e hq hqa
    rw [← hkl, hl]
    exact hmax j k e hk hkd hka hkw

theorem iter_eq_entries (t : Trie w D) : t.iter = entries t.nodes := rfl

theorem iter_keys_nodup {t : Trie w D} {m : PrefixMap w D} (h : t.Refines m) :
    (t.iter.map Prod.snd).Nodup := by
  rw [iter_eq_entries, entries, List.map_filterMap, List.Nodup, List.pairwise_filterMap,
    List.pairwise_iff_getElem]
  intro i j hi hj hij a ha b hb hab
  have hne := h.keys_ne (List.getElem?_eq_getElem hi) (List.getElem?_eq_getElem hj) hij.ne
  simp only [Node.entry, Option.map_map, Option.map_eq_some_iff] at ha hb
  obtain ⟨_, -, rfl⟩ := ha
  obtain ⟨_, -, rfl⟩ := hb
  exact hne (by simpa using hab)

theorem iter_refines {t : Trie w D} {m : PrefixMap w D} (h : t.Refines m) :
    ∃ items : List (D × Prefix w), t.iter = items.map (fun x => (x.1, x.2.network, x.2.len)) ∧
      (items.map Prod.snd).Nodup ∧ ∀ d p, (d, p) ∈ items ↔ m p = some d := by
  have hlift : t.iter ∈ Set.range (List.map fun x : D × Prefix w => (x.1, x.2.network, x.2.len)) := by
    rw [Set.range_list_map]
    rintro ⟨d, pfx, len⟩ he
    obtain ⟨i, n, hn, -, rfl, rfl⟩ := mem_entries_iff.mp he
    obtain ⟨p, hp, hl⟩ := h.prefix_of_node hn
    exact ⟨(d, p), by simp only [hp, hl]⟩
  obtain ⟨items, hitems⟩ := hlift
  refine ⟨items, hitems.symm, ?_, ?_⟩
  · have hnodup := iter_keys_nodup h
    rw [← hitems, List.map_map] at hnodup
    have hcomp : (Prod.snd ∘ fun x : D × Prefix w => (x.1, x.2.network, x.2.len)) =
        (fun p : Prefix w => (p.network, p.len)) ∘ Prod.snd := rfl
    rw [hcomp, ← List.map_map] at hnodup
    exact hnodup.of_map _
  · intro d p
    rw [h.entry_iff, ← iter_eq_entries, ← hitems]
    constructor
    · intro hmem
      exact List.mem_map.mpr ⟨(d, p), hmem, rfl⟩
    · intro hmem
      obtain ⟨⟨d', p'⟩, hmem', he⟩ := List.mem_map.mp hmem
      obtain ⟨rfl, hnet, hlen⟩ := by simpa using he
      have hpp : p' = p := by
        cases p'
        cases p
        simp_all
      exact hpp ▸ hmem'

theorem overlaps_refines {t : Trie w D} {m : PrefixMap w D} (h : t.Refines m) (pfx : BitVec w)
    {len : ℕ} (hle : len ≤ w) {p : Prefix w} (hp : p.network = mask pfx len) (hl : p.len = len) :
    t.overlaps pfx len = true ↔ ∃ q d, m q = some d ∧ p.Meets q := by
  rw [overlaps, List.any_eq_true]
  constructor
  · rintro ⟨⟨d, pfx', len'⟩, hmem, hov⟩
    obtain ⟨i, n, hn, hd, rfl, rfl⟩ := mem_entries_iff.mp hmem
    obtain ⟨q, hq, hql⟩ := h.prefix_of_node hn
    refine ⟨q, d, by rw [h.data_of_node hn hq hql, hd], Prefix.meets_iff.mpr ?_⟩
    rw [hp, hl, hq, hql]
    exact (prefixesOverlap_iff hle).mp hov
  · rintro ⟨q, d, hq, hmeet⟩
    refine ⟨(d, q.network, q.len), (h.entry_iff q d).mp hq, (prefixesOverlap_iff hle).mpr ?_⟩
    rw [← hp, ← hl]
    exact Prefix.meets_iff.mp hmeet

end Trie

end Tendrilix.AllowedIps
