import Tendrilix.AllowedIps.NodeCount
import Tendrilix.AllowedIps.Refinement

/-!
# Room in a table

A table that is filled with prefixes has room for them as long as neither of its tries needs too
many nodes. The order of the insertions does not matter.
-/

namespace Tendrilix

open AllowedIps TreeOrder

variable {D : Type}

namespace NetKey

def v4s (s : Finset NetKey) : Finset (Prefix 32) :=
  s.biUnion fun
    | .v4 p => {p}
    | .v6 _ => ∅

def v6s (s : Finset NetKey) : Finset (Prefix 128) :=
  s.biUnion fun
    | .v4 _ => ∅
    | .v6 p => {p}

variable {s t : Finset NetKey}

theorem mem_v4s {p : Prefix 32} : p ∈ v4s s ↔ .v4 p ∈ s := by
  rw [v4s, Finset.mem_biUnion]
  constructor
  · rintro ⟨k | k, hk, hp⟩
    · rwa [Finset.mem_singleton.mp hp]
    · exact absurd hp (Finset.notMem_empty p)
  · exact fun hp => ⟨.v4 p, hp, Finset.mem_singleton_self p⟩

theorem mem_v6s {p : Prefix 128} : p ∈ v6s s ↔ .v6 p ∈ s := by
  rw [v6s, Finset.mem_biUnion]
  constructor
  · rintro ⟨k | k, hk, hp⟩
    · exact absurd hp (Finset.notMem_empty p)
    · rwa [Finset.mem_singleton.mp hp]
  · exact fun hp => ⟨.v6 p, hp, Finset.mem_singleton_self p⟩

theorem v4s_mono (h : s ⊆ t) : v4s s ⊆ v4s t := fun _ hp => mem_v4s.mpr (h (mem_v4s.mp hp))

theorem v6s_mono (h : s ⊆ t) : v6s s ⊆ v6s t := fun _ hp => mem_v6s.mpr (h (mem_v6s.mp hp))

theorem v4s_insert_v4 (p : Prefix 32) : v4s (insert (.v4 p) s) = insert p (v4s s) := by
  ext q
  simp [mem_v4s]

theorem v6s_insert_v4 (p : Prefix 32) : v6s (insert (.v4 p) s) = v6s s := by
  ext q
  simp [mem_v6s]

theorem v6s_insert_v6 (p : Prefix 128) : v6s (insert (.v6 p) s) = insert p (v6s s) := by
  ext q
  simp [mem_v6s]

theorem v4s_insert_v6 (p : Prefix 128) : v4s (insert (.v6 p) s) = v4s s := by
  ext q
  simp [mem_v4s]

theorem v4s_union (s t : Finset NetKey) : v4s (s ∪ t) = v4s s ∪ v4s t := Finset.union_biUnion

theorem v6s_union (s t : Finset NetKey) : v6s (s ∪ t) = v6s s ∪ v6s t := Finset.union_biUnion

theorem v4s_biUnion {α : Type} (b : Finset α) (f : α → Finset NetKey) :
    v4s (b.biUnion f) = b.biUnion fun x => v4s (f x) := Finset.biUnion_biUnion b f _

theorem v6s_biUnion {α : Type} (b : Finset α) (f : α → Finset NetKey) :
    v6s (b.biUnion f) = b.biUnion fun x => v6s (f x) := Finset.biUnion_biUnion b f _

theorem card_v4s_add_card_v6s (s : Finset NetKey) : (v4s s).card + (v6s s).card = s.card := by
  induction s using Finset.induction_on with
  | empty => rfl
  | insert k s hk ih =>
    rw [Finset.card_insert_of_notMem hk]
    cases k with
    | v4 p =>
      rw [v4s_insert_v4, v6s_insert_v4, Finset.card_insert_of_notMem (mt mem_v4s.mp hk)]
      omega
    | v6 p =>
      rw [v4s_insert_v6, v6s_insert_v6, Finset.card_insert_of_notMem (mt mem_v6s.mp hk)]
      omega

end NetKey

open NetKey

/-- The nodes of the larger trie of a table with the given prefixes. -/
def nodesNeeded (s : Finset NetKey) : ℕ := max (spanned (v4s s)).card (spanned (v6s s)).card

theorem nodesNeeded_mono {s t : Finset NetKey} (h : s ⊆ t) : nodesNeeded s ≤ nodesNeeded t :=
  max_le_max (Finset.card_le_card (spanned_mono (v4s_mono h)))
    (Finset.card_le_card (spanned_mono (v6s_mono h)))

theorem card_spanned_le_succ {w : ℕ} (s : Finset (Prefix w)) : (spanned s).card ≤ 2 * s.card + 1 := by
  rcases s.eq_empty_or_nonempty with rfl | hs
  · exact card_spanned_empty.le
  · exact (card_spanned_le hs).trans (Nat.le_succ _)

theorem nodesNeeded_le (s : Finset NetKey) : nodesNeeded s ≤ 2 * s.card + 1 := by
  have hcard := card_v4s_add_card_v6s s
  apply max_le
  · exact (card_spanned_le_succ (v4s s)).trans (by omega)
  · exact (card_spanned_le_succ (v6s s)).trans (by omega)

structure TableSpans (capacity : Option ℕ) (t : AllowedIPs D) (s : Finset NetKey) : Prop where
  v4 : Spans capacity t.v4 (v4s s)
  v6 : Spans capacity t.v6 (v6s s)
  live : ∃ m, t.Refines m ∧ ∀ k, k ∈ s ↔ ∃ d, m k = some d

namespace TableSpans

variable {capacity : Option ℕ} {t t' : AllowedIPs D} {s : Finset NetKey} {net : IpNet} {d : D}

theorem new (hroom : 1 ≤ nodeLimit capacity) : TableSpans capacity (.new : AllowedIPs D) ∅ := by
  refine ⟨spans_new hroom, spans_new hroom, RouteMap.empty, AllowedIPs.new_refines, ?_⟩
  exact fun k => ⟨fun hk => absurd hk (Finset.notMem_empty k), fun ⟨d, hd⟩ => nomatch hd⟩

theorem nodesNeeded_le (h : TableSpans capacity t s) : nodesNeeded s ≤ nodeLimit capacity :=
  max_le (h.v4.length_eq ▸ h.v4.fits) (h.v6.length_eq ▸ h.v6.fits)

theorem live_insert {m : RouteMap D} (hm : ∀ k, k ∈ s ↔ ∃ d, m k = some d) (key : NetKey) (d : D)
    (k : NetKey) : k ∈ insert key s ↔ ∃ e, m.insert key d k = some e := by
  rw [Finset.mem_insert, hm]
  by_cases hk : k = key
  · subst hk
    simp [RouteMap.insert]
  · simp [RouteMap.insert, hk]

theorem live_of_insert (h : TableSpans capacity t s) {old : Option D}
    (hok : t.insert capacity net d = .ok (.ok old, t')) :
    ∃ m, t'.Refines m ∧ ∀ k, k ∈ insert (.ofNet net) s ↔ ∃ e, m k = some e := by
  obtain ⟨m, href, hm⟩ := h.live
  rcases AllowedIPs.insert_refines capacity href net d with hfull | ⟨t₁, hok', href'⟩
  · cases hok.symm.trans hfull
  · cases hok.symm.trans hok'
    exact ⟨_, href', live_insert hm _ d⟩

theorem of_insert (h : TableSpans capacity t s) (net : IpNet) (d : D) :
    ∃ r t', t.insert capacity net d = .ok (r, t') ∧
      (((∃ old, r = .ok old) ∧ TableSpans capacity t' (insert (.ofNet net) s)) ∨
        (r = .error .full ∧ nodeLimit capacity < nodesNeeded (insert (.ofNet net) s))) := by
  cases net with
  | v4 net =>
    obtain ⟨r, v4, hrun, hcases⟩ := h.v4.of_insert (Prefix.ofNet net) d
    have hinsert : t.insert capacity (.v4 net) d = .ok (r, { t with v4 := v4 }) :=
      bind_ok_iff.mpr ⟨(r, v4), hrun, rfl⟩
    refine ⟨r, _, hinsert, ?_⟩
    rcases hcases with ⟨⟨old, rfl⟩, hspans⟩ | ⟨rfl, hlt⟩
    · refine .inl ⟨⟨old, rfl⟩, ?_, ?_, h.live_of_insert hinsert⟩
      · exact (v4s_insert_v4 (Prefix.ofNet net)).symm ▸ hspans
      · exact (v6s_insert_v4 (Prefix.ofNet net)).symm ▸ h.v6
    · refine .inr ⟨rfl, hlt.trans_le ?_⟩
      rw [← v4s_insert_v4]
      exact le_max_left _ _
  | v6 net =>
    obtain ⟨r, v6, hrun, hcases⟩ := h.v6.of_insert (Prefix.ofNet net) d
    have hinsert : t.insert capacity (.v6 net) d = .ok (r, { t with v6 := v6 }) :=
      bind_ok_iff.mpr ⟨(r, v6), hrun, rfl⟩
    refine ⟨r, _, hinsert, ?_⟩
    rcases hcases with ⟨⟨old, rfl⟩, hspans⟩ | ⟨rfl, hlt⟩
    · refine .inl ⟨⟨old, rfl⟩, ?_, ?_, h.live_of_insert hinsert⟩
      · exact (v4s_insert_v6 (Prefix.ofNet net)).symm ▸ h.v4
      · exact (v6s_insert_v6 (Prefix.ofNet net)).symm ▸ hspans
    · refine .inr ⟨rfl, hlt.trans_le ?_⟩
      rw [← v6s_insert_v6]
      exact le_max_right _ _

theorem of_tryFromLoop (items : List (IpNet × D)) (h : TableSpans capacity t s) :
    ∃ r, AllowedIPs.tryFromLoop capacity items t = .ok r ∧
      ((∃ t', r = .ok t' ∧
        TableSpans capacity t' (s ∪ (items.map fun x => NetKey.ofNet x.1).toFinset)) ∨
      (r = .error .full ∧
        nodeLimit capacity < nodesNeeded (s ∪ (items.map fun x => NetKey.ofNet x.1).toFinset))) := by
  induction items generalizing t s with
  | nil =>
    refine ⟨.ok t, rfl, .inl ⟨t, rfl, ?_⟩⟩
    rw [List.map_nil, List.toFinset_nil, Finset.union_empty]
    exact h
  | cons item items ih =>
    obtain ⟨net, d⟩ := item
    rw [List.map_cons, List.toFinset_cons, Finset.union_insert, ← Finset.insert_union]
    obtain ⟨r, t₁, hinsert, ⟨⟨old, rfl⟩, h₁⟩ | ⟨rfl, hlt⟩⟩ := h.of_insert net d
    · obtain ⟨r, hr, hcases⟩ := ih h₁
      refine ⟨r, ?_, hcases⟩
      simp only [AllowedIPs.tryFromLoop, hinsert, ok_bind]
      exact hr
    · refine ⟨.error .full, ?_, .inr ⟨rfl, hlt.trans_le (nodesNeeded_mono Finset.subset_union_left)⟩⟩
      simp only [AllowedIPs.tryFromLoop, hinsert, ok_bind, pure_eq_ok]

end TableSpans

end Tendrilix
