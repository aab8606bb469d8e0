import Tendrilix.Device.PeerTable

/-!
# When the routes can be rebuilt

A peer may take new prefixes when these are disjoint from each other and from the prefixes of the
other peers. The rebuilt routes then need as many nodes as the prefixes of all peers span.
-/

namespace Tendrilix

open AllowedIps Noise

variable {K : Crypto}

namespace PeerState

variable {s : PeerState K} {key : PublicKey} {table : AllowedIPs Unit} {nets : List NetKey}

theorem nodup_routesWith (s : PeerState K) (key : PublicKey) (table : AllowedIPs Unit) :
    ((s.routesWith key table).map Prod.fst).Nodup := by
  have hkeys : (s.peers.entries.map fun e => (e.1,
      if e.1 = key then table else e.2.allowedIps)).map Prod.fst = s.peers.keys := by
    rw [List.map_map]
    rfl
  rw [routesWith, List.map_append, hkeys]
  by_cases hmem : key ∈ s.peers
  · simpa [hmem] using s.peers.keys_nodup
  · rw [if_neg hmem, List.nodup_append]
    refine ⟨s.peers.keys_nodup, by simp, ?_⟩
    intro k hk k' hk' heq
    simp only [List.map_cons, List.map_nil, List.mem_singleton] at hk'
    subst hk' heq
    exact hmem hk

theorem Routed.mem_prefixes (h : s.Routed) {peer : Peer K} (hpeer : s.peerByKey key = some peer)
    {n : NetKey} : n ∈ peer.allowedIps.prefixes ↔ peer.allowedIps.Has () n := by
  obtain ⟨m, href⟩ := h.peers key peer hpeer
  rw [href.mem_prefixes, href.has_iff]
  exact ⟨fun ⟨_, hn⟩ => hn, fun hn => ⟨(), hn⟩⟩

theorem Routed.eq_of_meets (h : s.Routed) {k l : PublicKey} {p q : Peer K} {n n' : NetKey}
    (hp : s.peerByKey k = some p) (hq : s.peerByKey l = some q) (hn : n ∈ p.allowedIps.prefixes)
    (hn' : n' ∈ q.allowedIps.prefixes) (hmeet : n.Meets n') : n = n' ∧ k = l := by
  obtain ⟨m, -, hdisjoint, hm⟩ := h.routes
  have hk := (hm n k).mpr ⟨p, hp, (h.mem_prefixes hp).mp hn⟩
  have hl := (hm n' l).mpr ⟨q, hq, (h.mem_prefixes hq).mp hn'⟩
  obtain rfl := hdisjoint n n' k l hk hl hmeet
  exact ⟨rfl, Option.some.inj (hk.symm.trans hl)⟩

/-- The peer with the given key may have the given prefixes. -/
structure Admits (s : PeerState K) (key : PublicKey) (nets : List NetKey) : Prop where
  disjoint : ∀ k ∈ nets, ∀ l ∈ nets, k ≠ l → ¬k.Meets l
  others : ∀ other peer, other ≠ key → s.peerByKey other = some peer →
    ∀ k ∈ nets, ∀ l ∈ peer.allowedIps.prefixes, ¬k.Meets l

theorem admits_iff : s.Admits key nets ↔ (∀ k ∈ nets, ∀ l ∈ nets, k ≠ l → ¬k.Meets l) ∧
    ∀ e ∈ s.peers.entries, e.1 ≠ key → ∀ k ∈ nets, ∀ l ∈ e.2.allowedIps.prefixes, ¬k.Meets l := by
  constructor
  · intro h
    exact ⟨h.disjoint, fun e he hne => h.others e.1 e.2 hne (AList.mem_lookup_iff.mpr he)⟩
  · intro ⟨hdisjoint, hothers⟩
    exact ⟨hdisjoint, fun other peer hne hpeer =>
      hothers ⟨other, peer⟩ (AList.mem_lookup_iff.mp hpeer) hne⟩

instance (s : PeerState K) (key : PublicKey) (nets : List NetKey) : Decidable (s.Admits key nets) :=
  decidable_of_iff _ admits_iff.symm

/-- The prefixes of all peers once the given peer has the given ones. -/
def prefixesWith (s : PeerState K) (key : PublicKey) (nets : List NetKey) : Finset NetKey :=
  nets.toFinset ∪
    ((s.peers.entries.filter (·.1 ≠ key)).flatMap fun e => e.2.allowedIps.prefixes).toFinset

theorem mem_prefixesWith {n : NetKey} : n ∈ s.prefixesWith key nets ↔ n ∈ nets ∨
    ∃ other peer, other ≠ key ∧ s.peerByKey other = some peer ∧ n ∈ peer.allowedIps.prefixes := by
  rw [prefixesWith, Finset.mem_union, List.mem_toFinset, List.mem_toFinset, List.mem_flatMap]
  refine or_congr_right ?_
  constructor
  · rintro ⟨⟨other, peer⟩, hin, hn⟩
    obtain ⟨hin, hne⟩ := List.mem_filter.mp hin
    exact ⟨other, peer, of_decide_eq_true hne, AList.mem_lookup_iff.mpr hin, hn⟩
  · rintro ⟨other, peer, hne, hpeer, hn⟩
    exact ⟨⟨other, peer⟩, List.mem_filter.mpr ⟨AList.mem_lookup_iff.mp hpeer, decide_eq_true hne⟩, hn⟩

theorem Admits.congr {s' : PeerState K} (h : s.Admits key nets)
    (hsame : ∀ k, s'.peerByKey k = s.peerByKey k) : s'.Admits key nets :=
  ⟨h.disjoint, fun other peer hne hpeer => h.others other peer hne ((hsame other).symm.trans hpeer)⟩

theorem prefixesWith_congr {s' : PeerState K} (hsame : ∀ k, s'.peerByKey k = s.peerByKey k)
    (key : PublicKey) (nets : List NetKey) : s'.prefixesWith key nets = s.prefixesWith key nets := by
  ext n
  simp only [mem_prefixesWith, hsame]

theorem toFinset_routesWith (hnets : ∀ n, n ∈ table.prefixes ↔ n ∈ nets) :
    ((s.routesWith key table).flatMap fun x => x.2.prefixes).toFinset = s.prefixesWith key nets := by
  ext n
  rw [List.mem_toFinset, List.mem_flatMap, mem_prefixesWith]
  constructor
  · rintro ⟨⟨k, other⟩, hin, hn⟩
    rcases mem_routesWith.mp hin with ⟨-, rfl⟩ | ⟨hne, peer, hpeer, rfl⟩
    · exact .inl ((hnets n).mp hn)
    · exact .inr ⟨k, peer, hne, hpeer, hn⟩
  · rintro (hn | ⟨other, peer, hne, hpeer, hn⟩)
    · exact ⟨(key, table), mem_routesWith.mpr (.inl ⟨rfl, rfl⟩), (hnets n).mpr hn⟩
    · exact ⟨(other, peer.allowedIps), mem_routesWith.mpr (.inr ⟨hne, peer, hpeer, rfl⟩), hn⟩

theorem free_routesWith (h : s.Routed) {m : RouteMap Unit} (href : table.Refines m)
    (hnets : ∀ n, n ∈ table.prefixes ↔ n ∈ nets) :
    Free ∅ ((s.routesWith key table).flatMap fun x => x.2.prefixes) ↔ s.Admits key nets := by
  rw [Free, List.pairwise_flatMap]
  constructor
  · rintro ⟨⟨heach, hpair⟩, -⟩
    have hmeets : Std.Symm fun k l : NetKey => ¬k.Meets l :=
      ⟨fun k l hkl hmeet => hkl hmeet.symm⟩
    have htables : Std.Symm fun x y : PublicKey × AllowedIPs Unit =>
        ∀ k ∈ x.2.prefixes, ∀ l ∈ y.2.prefixes, ¬k.Meets l :=
      ⟨fun x y hxy k hk l hl hmeet => hxy l hl k hk hmeet.symm⟩
    have hself : (key, table) ∈ s.routesWith key table := mem_routesWith.mpr (.inl ⟨rfl, rfl⟩)
    refine ⟨fun k hk l hl hne => ?_, fun other peer hne hpeer k hk l hl => ?_⟩
    · exact (heach _ hself).forall ((hnets k).mpr hk) ((hnets l).mpr hl) hne
    · have hother : (other, peer.allowedIps) ∈ s.routesWith key table :=
        mem_routesWith.mpr (.inr ⟨hne, peer, hpeer, rfl⟩)
      have hdiffer : (key, table) ≠ (other, peer.allowedIps) := fun heq =>
        hne (congrArg Prod.fst heq).symm
      exact hpair.forall hself hother hdiffer k ((hnets k).mpr hk) l hl
  · intro hadmits
    refine ⟨⟨?_, ?_⟩, fun k _ l hl => absurd hl (Finset.notMem_empty l)⟩
    · rintro ⟨k, other⟩ hin
      rcases mem_routesWith.mp hin with ⟨-, rfl⟩ | ⟨hne, peer, hpeer, rfl⟩
      · refine href.nodup_prefixes.imp_of_mem fun {n n'} hn hn' hdiffer => ?_
        exact hadmits.disjoint n ((hnets n).mp hn) n' ((hnets n').mp hn') hdiffer
      · obtain ⟨m', href'⟩ := h.peers k peer hpeer
        refine href'.nodup_prefixes.imp_of_mem fun {n n'} hn hn' hdiffer hmeet => ?_
        exact hdiffer (h.eq_of_meets hpeer hpeer hn hn' hmeet).1
    · have hnodup := nodup_routesWith s key table
      rw [List.Nodup, List.pairwise_map] at hnodup
      refine hnodup.imp_of_mem fun {x y} hx hy hdiffer k hk l hl hmeet => ?_
      rcases mem_routesWith.mp hx with ⟨hxk, hxt⟩ | ⟨hxk, p, hp, hxt⟩
      · rcases mem_routesWith.mp hy with ⟨hyk, hyt⟩ | ⟨hyk, q, hq, hyt⟩
        · exact hdiffer (hxk.trans hyk.symm)
        · rw [hxt, hnets] at hk
          rw [hyt] at hl
          exact hadmits.others y.1 q hyk hq k hk l hl hmeet
      · rcases mem_routesWith.mp hy with ⟨hyk, hyt⟩ | ⟨hyk, q, hq, hyt⟩
        · rw [hyt, hnets] at hl
          rw [hxt] at hk
          exact hadmits.others x.1 p hxk hp l hl k hk hmeet.symm
        · rw [hxt] at hk
          rw [hyt] at hl
          exact hdiffer (h.eq_of_meets hp hq hk hl hmeet).2

theorem one_le_nodeLimit (profile : Profile) :
    1 ≤ nodeLimit profile.maxAllowedIpsPerPeer ∧ 1 ≤ nodeLimit profile.peerRoutes := by
  cases profile <;> decide

inductive RebuildVerdict (profile : Profile) (s : PeerState K) (key : PublicKey)
    (nets : List NetKey) : Except Device.Error (AllowedIPs PublicKey) → Prop
  | ok {t : AllowedIPs PublicKey} (admits : s.Admits key nets)
      (room : nodesNeeded (s.prefixesWith key nets) ≤ nodeLimit profile.peerRoutes) :
      RebuildVerdict profile s key nets (.ok t)
  | overlap (taken : ¬s.Admits key nets) :
      RebuildVerdict profile s key nets (.error .allowedIPOverlap)
  | full (exceeds : nodeLimit profile.peerRoutes < nodesNeeded (s.prefixesWith key nets)) :
      RebuildVerdict profile s key nets (.error .capacity)

theorem rebuiltPeersByIpWith_verdict (profile : Profile) (h : s.Routed) (key : PublicKey)
    {m : RouteMap Unit} (href : table.Refines m) (hnets : ∀ n, n ∈ table.prefixes ↔ n ∈ nets) :
    ∃ r, s.rebuiltPeersByIpWith profile key table = .ok r ∧ RebuildVerdict profile s key nets r := by
  have hroutes : ∀ x ∈ s.routesWith key table, ∃ m, x.2.Refines m := by
    rintro ⟨k, other⟩ hx
    rcases mem_routesWith.mp hx with ⟨-, rfl⟩ | ⟨-, peer, hpeer, rfl⟩
    · exact ⟨m, href⟩
    · exact h.peers k peer hpeer
  obtain ⟨r, hr, hverdict⟩ := routePeers_verdict profile (s.routesWith key table) hroutes
    (TableSpans.new (one_le_nodeLimit profile).2)
  refine ⟨r, hr, ?_⟩
  cases hverdict with
  | ok hfree hspans =>
    have hneeded := hspans.nodesNeeded_le
    rw [Finset.empty_union, toFinset_routesWith hnets] at hneeded
    exact .ok ((free_routesWith h href hnets).mp hfree) hneeded
  | overlap htaken => exact .overlap (mt (free_routesWith h href hnets).mpr htaken)
  | full hexceeds =>
    rw [Finset.empty_union, toFinset_routesWith hnets] at hexceeds
    exact .full hexceeds

end PeerState

theorem Peer.allowedIpsFromSlice_cases (profile : Profile) (allowedIps : List IpNet) :
    (∃ table, allowedIpsFromSlice profile allowedIps = .ok (.ok table) ∧
      TableSpans profile.maxAllowedIpsPerPeer table (allowedIps.map NetKey.ofNet).toFinset) ∨
    (nodeLimit profile.maxAllowedIpsPerPeer < nodesNeeded (allowedIps.map NetKey.ofNet).toFinset ∧
      allowedIpsFromSlice profile allowedIps = .ok (.error .capacity)) := by
  obtain ⟨r, hr, hcases⟩ := TableSpans.of_tryFromLoop (allowedIps.map fun ip => (ip, ()))
    (TableSpans.new (PeerState.one_le_nodeLimit profile).1)
  rw [Finset.empty_union, List.map_map] at hcases
  rw [allowedIpsFromSlice, AllowedIPs.tryFromIter, hr]
  rcases hcases with ⟨table, rfl, hspans⟩ | ⟨rfl, hlt⟩
  · exact .inl ⟨table, rfl, hspans⟩
  · exact .inr ⟨hlt, rfl⟩

theorem TableSpans.mem_prefixes {capacity : Option ℕ} {D : Type} {t : AllowedIPs D} {s : Finset NetKey}
    (h : TableSpans capacity t s) {n : NetKey} : n ∈ t.prefixes ↔ n ∈ s := by
  obtain ⟨m, href, hm⟩ := h.live
  rw [href.mem_prefixes, hm]

end Tendrilix
