import Tendrilix.Control.Reconciler
import Tendrilix.Device.PeerRoutes

/-!
# Peers with one address

The reconciler gives a peer at most one address. A device takes the address exactly when no other peer
is allowed to use it and its routing tables have room.
-/

namespace Tendrilix

open AllowedIps Noise Control PrefixWord

variable {K : Crypto} {N BYTES : ℕ}

theorem contains_host {w : ℕ} (addr a : BitVec w) :
    (Prefix.ofNet ⟨addr, w, le_refl w⟩).Contains a ↔ a = addr := by
  have hagree : ∀ i, i < w → (Prefix.ofNet ⟨addr, w, le_refl w⟩).network.getMsbD i = addr.getMsbD i := by
    intro i hi
    change (Net.network ⟨addr, w, le_refl w⟩).getMsbD i = _
    rw [Net.network_eq_mask, getMsbD_mask (le_refl w)]
    simp [hi]
  constructor
  · intro h
    apply BitVec.eq_of_getMsbD_eq
    intro i hi
    rw [← h i hi, hagree i hi]
  · rintro rfl
    exact fun i hi => hagree i hi

theorem contains_hostNet (ip a : IpAddr) :
    (NetKey.ofNet (DesiredPeer.hostNet ip)).Contains a ↔ a = ip := by
  cases ip with
  | v4 ip =>
    cases a with
    | v4 a =>
      rw [IpAddr.v4.injEq]
      exact contains_host ip a
    | v6 a => exact ⟨fun h => h.elim, nofun⟩
  | v6 ip =>
    cases a with
    | v4 a => exact ⟨fun h => h.elim, nofun⟩
    | v6 a =>
      rw [IpAddr.v6.injEq]
      exact contains_host ip a

theorem meets_hostNet {ip : IpAddr} {n : NetKey} :
    (NetKey.ofNet (DesiredPeer.hostNet ip)).Meets n ↔ n.Contains ip := by
  constructor
  · intro ⟨a, hip, hn⟩
    rwa [(contains_hostNet ip a).mp hip] at hn
  · exact fun hn => ⟨ip, (contains_hostNet ip ip).mpr rfl, hn⟩

def hostNets (ip : Option IpAddr) : List NetKey := ip.toList.map fun a => .ofNet (DesiredPeer.hostNet a)

theorem mem_hostNets {ip : Option IpAddr} {n : NetKey} :
    n ∈ hostNets ip ↔ ∃ a, ip = some a ∧ n = .ofNet (DesiredPeer.hostNet a) := by
  rw [hostNets, List.mem_map]
  exact exists_congr fun a => and_congr Option.mem_toList eq_comm

theorem length_hostNets_le (ip : Option IpAddr) : (hostNets ip).length ≤ 1 := by
  rw [hostNets, List.length_map]
  exact Option.length_toList_le

theorem map_ofNet_hostNet (ip : Option IpAddr) :
    (ip.toList.map DesiredPeer.hostNet).map NetKey.ofNet = hostNets ip := by
  rw [List.map_map]
  rfl

theorem nodesNeeded_le_of_length {nets : List NetKey} (h : nets.length ≤ 32767) :
    nodesNeeded nets.toFinset ≤ 65535 := by
  have hcard := List.toFinset_card_le nets
  have hneeded := nodesNeeded_le nets.toFinset
  omega

namespace Peer

theorem mem_prefixes_of_slice {profile : Profile} {allowedIps : List IpNet} {table : AllowedIPs Unit}
    (h : allowedIpsFromSlice profile allowedIps = .ok (.ok table)) :
    (∃ m, table.Refines m) ∧ ∀ n, n ∈ table.prefixes ↔ n ∈ allowedIps.map NetKey.ofNet := by
  rcases allowedIpsFromSlice_cases profile allowedIps with ⟨t, hok, hspans⟩ | ⟨-, hfull⟩
  · cases hok.symm.trans h
    obtain ⟨m, href, -⟩ := hspans.live
    exact ⟨⟨m, href⟩, fun n => hspans.mem_prefixes.trans List.mem_toFinset⟩
  · cases hfull.symm.trans h

theorem allowedIpsFromSlice_hosts (ip : Option IpAddr) :
    ∃ table m, allowedIpsFromSlice .alloc (ip.toList.map DesiredPeer.hostNet) = .ok (.ok table) ∧
      table.Refines m ∧ ∀ n, n ∈ table.prefixes ↔ n ∈ hostNets ip := by
  have hroom : nodesNeeded (hostNets ip).toFinset ≤ nodeLimit Profile.alloc.maxAllowedIpsPerPeer :=
    nodesNeeded_le_of_length ((length_hostNets_le ip).trans (by decide))
  rw [← map_ofNet_hostNet] at hroom ⊢
  rcases allowedIpsFromSlice_cases .alloc (ip.toList.map DesiredPeer.hostNet) with
    ⟨table, hok, -⟩ | ⟨hlt, -⟩
  · obtain ⟨⟨m, href⟩, hprefixes⟩ := mem_prefixes_of_slice hok
    exact ⟨table, m, hok, href, hprefixes⟩
  · exact absurd hroom (not_le.mpr hlt)

end Peer

namespace PeerState

variable {s s' : PeerState K}

def hasIp (s : PeerState K) (key : PublicKey) (ip : IpAddr) : Bool :=
  (s.peerByKey key).any fun peer => okAnd id (peer.isAllowedIp ip)

theorem hasIp_iff (h : s.Routed) {key : PublicKey} {ip : IpAddr} :
    s.hasIp key ip = true ↔
      ∃ peer n, s.peerByKey key = some peer ∧ peer.allowedIps.Has () n ∧ n.Contains ip := by
  rw [hasIp]
  cases hpeer : s.peerByKey key with
  | none => simp
  | some peer =>
    obtain ⟨m, hm⟩ := h.peers key peer hpeer
    obtain ⟨b, hb, hallowed⟩ := Peer.isAllowedIp_spec hm ip
    have heq : (Option.some peer).any (fun peer => okAnd id (peer.isAllowedIp ip)) = b := by
      rw [Option.any_some, hb]
      rfl
    rw [heq, hallowed]
    constructor
    · intro ⟨n, hn, hcontains⟩
      exact ⟨peer, n, rfl, hm.has_iff.mpr hn, hcontains⟩
    · intro ⟨p, n, hp, hn, hcontains⟩
      cases hp
      exact ⟨n, hm.has_iff.mp hn, hcontains⟩

def allPrefixes (s : PeerState K) : Finset NetKey :=
  (s.peers.entries.flatMap fun e => e.2.allowedIps.prefixes).toFinset

theorem mem_allPrefixes {n : NetKey} : n ∈ s.allPrefixes ↔
    ∃ key peer, s.peerByKey key = some peer ∧ n ∈ peer.allowedIps.prefixes := by
  rw [allPrefixes, List.mem_toFinset, List.mem_flatMap]
  constructor
  · rintro ⟨⟨key, peer⟩, hin, hn⟩
    exact ⟨key, peer, AList.mem_lookup_iff.mpr hin, hn⟩
  · rintro ⟨key, peer, hpeer, hn⟩
    exact ⟨⟨key, peer⟩, AList.mem_lookup_iff.mp hpeer, hn⟩

theorem allPrefixes_of_write {key : PublicKey} {nets : List NetKey} {peer : Peer K}
    (hkey : s'.peerByKey key = some peer) (hnets : ∀ n, n ∈ peer.allowedIps.prefixes ↔ n ∈ nets)
    (hothers : ∀ k, k ≠ key → s'.peerByKey k = s.peerByKey k) :
    s'.allPrefixes = s.prefixesWith key nets := by
  ext n
  rw [mem_allPrefixes, mem_prefixesWith]
  constructor
  · rintro ⟨k, p, hp, hn⟩
    by_cases hk : k = key
    · subst hk
      cases hkey.symm.trans hp
      exact .inl ((hnets n).mp hn)
    · exact .inr ⟨k, p, hk, (hothers k hk).symm.trans hp, hn⟩
  · rintro (hn | ⟨k, p, hk, hp, hn⟩)
    · exact ⟨key, peer, hkey, (hnets n).mpr hn⟩
    · exact ⟨k, p, (hothers k hk).trans hp, hn⟩

def prefixesAfter (s : PeerState K) (ips : PublicKey → Option IpAddr) (done : List PublicKey) :
    Finset NetKey :=
  (done.flatMap fun key => hostNets (ips key)).toFinset ∪
    ((s.peers.entries.filter (·.1 ∉ done)).flatMap fun e => e.2.allowedIps.prefixes).toFinset

theorem mem_prefixesAfter {ips : PublicKey → Option IpAddr} {done : List PublicKey} {n : NetKey} :
    n ∈ s.prefixesAfter ips done ↔ (∃ key ∈ done, n ∈ hostNets (ips key)) ∨
      ∃ key peer, key ∉ done ∧ s.peerByKey key = some peer ∧ n ∈ peer.allowedIps.prefixes := by
  rw [prefixesAfter, Finset.mem_union, List.mem_toFinset, List.mem_toFinset, List.mem_flatMap,
    List.mem_flatMap]
  refine or_congr_right ?_
  constructor
  · rintro ⟨⟨key, peer⟩, hin, hn⟩
    obtain ⟨hin, hdone⟩ := List.mem_filter.mp hin
    exact ⟨key, peer, of_decide_eq_true hdone, AList.mem_lookup_iff.mpr hin, hn⟩
  · rintro ⟨key, peer, hdone, hpeer, hn⟩
    exact ⟨⟨key, peer⟩, List.mem_filter.mpr ⟨AList.mem_lookup_iff.mp hpeer, decide_eq_true hdone⟩, hn⟩

theorem prefixesAfter_nil (s : PeerState K) (ips : PublicKey → Option IpAddr) :
    s.prefixesAfter ips [] = s.allPrefixes := by
  ext n
  simp [mem_prefixesAfter, mem_allPrefixes]

theorem prefixesAfter_singleton (s : PeerState K) (ips : PublicKey → Option IpAddr) (key : PublicKey) :
    s.prefixesAfter ips [key] = s.prefixesWith key (hostNets (ips key)) := by
  ext n
  simp [mem_prefixesAfter, mem_prefixesWith]

theorem prefixesAfter_of_write {ips : PublicKey → Option IpAddr} {key : PublicKey} {peer : Peer K}
    (hkey : s'.peerByKey key = some peer)
    (hnets : ∀ n, n ∈ peer.allowedIps.prefixes ↔ n ∈ hostNets (ips key))
    (hothers : ∀ k, k ≠ key → s'.peerByKey k = s.peerByKey k) (done : List PublicKey) :
    s'.prefixesAfter ips done = s.prefixesAfter ips (key :: done) := by
  ext n
  rw [mem_prefixesAfter, mem_prefixesAfter]
  constructor
  · rintro (⟨k, hk, hn⟩ | ⟨k, p, hk, hp, hn⟩)
    · exact .inl ⟨k, List.mem_cons_of_mem _ hk, hn⟩
    · by_cases heq : k = key
      · subst heq
        cases hkey.symm.trans hp
        exact .inl ⟨k, List.mem_cons_self, (hnets n).mp hn⟩
      · have hlater : k ∉ key :: done := by simp [heq, hk]
        exact .inr ⟨k, p, hlater, (hothers k heq).symm.trans hp, hn⟩
  · rintro (⟨k, hk, hn⟩ | ⟨k, p, hk, hp, hn⟩)
    · by_cases hdone : k ∈ done
      · exact .inl ⟨k, hdone, hn⟩
      · obtain rfl := (List.mem_cons.mp hk).resolve_right hdone
        exact .inr ⟨k, peer, hdone, hkey, (hnets n).mpr hn⟩
    · obtain ⟨heq, hdone⟩ := not_or.mp (List.mem_cons.not.mp hk)
      exact .inr ⟨k, p, hdone, (hothers k heq).trans hp, hn⟩

theorem Routed.hasIp_unique (h : s.Routed) {k l : PublicKey} {ip : IpAddr} (hk : s.hasIp k ip = true)
    (hl : s.hasIp l ip = true) : k = l := by
  obtain ⟨p, n, hp, hn, hip⟩ := (hasIp_iff h).mp hk
  obtain ⟨q, n', hq, hn', hip'⟩ := (hasIp_iff h).mp hl
  exact (h.eq_of_meets hp hq ((h.mem_prefixes hp).mpr hn) ((h.mem_prefixes hq).mpr hn')
    ⟨ip, hip, hip'⟩).2

theorem Routed.fits_of_rebuilt (h : s.Routed) {key : PublicKey} {peer : Peer K} {ips : List IpNet}
    {t : AllowedIPs PublicKey}
    (hslice : Peer.allowedIpsFromSlice .alloc ips = .ok (.ok peer.allowedIps))
    (hrebuilt : s.rebuiltPeersByIpWith .alloc key peer.allowedIps = .ok (.ok t))
    (hkey : s'.peerByKey key = some peer)
    (hothers : ∀ k, k ≠ key → s'.peerByKey k = s.peerByKey k) :
    nodesNeeded s'.allPrefixes ≤ 65535 := by
  obtain ⟨⟨m, href⟩, -⟩ := Peer.mem_prefixes_of_slice hslice
  obtain ⟨r, hr, hverdict⟩ := rebuiltPeersByIpWith_verdict .alloc h key href fun n => Iff.rfl
  cases hr.symm.trans hrebuilt
  cases hverdict with
  | ok _ hroom =>
    rw [allPrefixes_of_write hkey (fun n => Iff.rfl) hothers]
    exact hroom

theorem rebuiltPeersByIpWith_iff (h : s.Routed) (key : PublicKey) {ip : Option IpAddr}
    {table : AllowedIPs Unit} {m : RouteMap Unit} (href : table.Refines m)
    (htable : ∀ n, n ∈ table.prefixes ↔ n ∈ hostNets ip) :
    ∃ r, s.rebuiltPeersByIpWith .alloc key table = .ok r ∧
      ((∃ t, r = .ok t) ↔
        (∀ a, ip = some a → ∀ other, other ≠ key → s.hasIp other a = false) ∧
        nodesNeeded (s.prefixesWith key (hostNets ip)) ≤ 65535) := by
  have hadmits : s.Admits key (hostNets ip) ↔
      ∀ a, ip = some a → ∀ other, other ≠ key → s.hasIp other a = false := by
    constructor
    · intro hadmits a ha other hother
      rw [Bool.eq_false_iff]
      intro hip
      obtain ⟨peer, n, hpeer, hn, hcontains⟩ := (hasIp_iff h).mp hip
      exact hadmits.others other peer hother hpeer _ (mem_hostNets.mpr ⟨a, ha, rfl⟩) n
        ((h.mem_prefixes hpeer).mpr hn) (meets_hostNet.mpr hcontains)
    · intro hfree
      refine ⟨fun k hk l hl hne => ?_, fun other peer hother hpeer k hk l hl hmeet => ?_⟩
      · obtain ⟨a, ha, rfl⟩ := mem_hostNets.mp hk
        obtain ⟨a', ha', rfl⟩ := mem_hostNets.mp hl
        cases ha.symm.trans ha'
        exact absurd rfl hne
      · obtain ⟨a, ha, rfl⟩ := mem_hostNets.mp hk
        have hip := (hasIp_iff h).mpr
          ⟨peer, l, hpeer, (h.mem_prefixes hpeer).mp hl, meets_hostNet.mp hmeet⟩
        rw [hfree a ha other hother] at hip
        cases hip
  obtain ⟨r, hr, hverdict⟩ := rebuiltPeersByIpWith_verdict .alloc h key href htable
  refine ⟨r, hr, ?_⟩
  rw [← hadmits]
  cases hverdict with
  | ok hok hroom => exact ⟨fun _ => ⟨hok, hroom⟩, fun _ => ⟨_, rfl⟩⟩
  | overlap htaken => exact ⟨fun ⟨t, ht⟩ => (nomatch ht), fun hok => absurd hok.1 htaken⟩
  | full hexceeds =>
    exact ⟨fun ⟨t, ht⟩ => (nomatch ht), fun hok => absurd hok.2 (not_le.mpr hexceeds)⟩

end PeerState

end Tendrilix
