import Tendrilix.Control.HostRoutes

/-!
# The device behind the client

The commands that the reconciler sends, answered by a device of the heap build. An address is refused
only while another peer has it, and a new peer takes one index of the generator.
-/

namespace Tendrilix

open Noise Control

variable {K : Crypto} {N BYTES : ℕ}

namespace PeerState

theorem hasIp_of_table {s : PeerState K} (h : s.Routed) {key : PublicKey} {peer : Peer K}
    {ip : Option IpAddr} (hkey : s.peerByKey key = some peer)
    (hnets : ∀ n, n ∈ peer.allowedIps.prefixes ↔ n ∈ hostNets ip) (a : IpAddr) :
    s.hasIp key a = true ↔ ip = some a := by
  rw [hasIp_iff h]
  constructor
  · intro ⟨p, n, hp, hn, hcontains⟩
    cases hkey.symm.trans hp
    obtain ⟨a', ha', rfl⟩ := mem_hostNets.mp ((hnets n).mp ((h.mem_prefixes hkey).mpr hn))
    rw [ha', (contains_hostNet a' a).mp hcontains]
  · intro ha
    have hn := (hnets _).mpr (mem_hostNets.mpr ⟨a, ha, rfl⟩)
    exact ⟨peer, _, hkey, (h.mem_prefixes hkey).mp hn, (contains_hostNet a a).mpr rfl⟩

theorem hasIp_congr {s s' : PeerState K} {key : PublicKey} (h : s'.peerByKey key = s.peerByKey key)
    (a : IpAddr) : s'.hasIp key a = s.hasIp key a := by
  rw [hasIp, hasIp, h]

end PeerState

namespace Device

variable {d d' : Device K N BYTES}

structure Ready (d : Device K N BYTES) : Prop where
  tables : d.Tables
  profile : d.profile = .alloc
  seeded : d.indexGenerator.lfsr ≠ 0
  fits : nodesNeeded d.peers.allPrefixes ≤ 65535

theorem addPeerToState_fits {s s' : PeerState K} {config : PeerConfig} {r : Except Error Unit}
    {privateKey : K.Secret} {g g' : IndexGenerator} {stamper : TimeStamper} {w w' : World K N BYTES}
    (hrouted : s.Routed) (hs : nodesNeeded s.allPrefixes ≤ 65535)
    (h : addPeerToState .alloc s config privateKey g stamper w = .ok (r, s', g', w')) :
    nodesNeeded s'.allPrefixes ≤ 65535 := by
  rcases addPeerToState_ok h with
    ⟨-, rfl, -⟩ | ⟨-, -, -, index, table, peersByIp, -, hslice, hrebuilt, rfl⟩
  · exact hs
  · exact hrouted.fits_of_rebuilt hslice hrebuilt (AList.lookup_insert _)
      fun k hk => AList.lookup_insert_ne hk

theorem updatePeerInState_fits {s s' : PeerState K} {config : PeerConfig} {r : Except Error Unit}
    (hrouted : s.Routed) (hs : nodesNeeded s.allPrefixes ≤ 65535)
    (h : updatePeerInState .alloc s config = .ok (r, s')) : nodesNeeded s'.allPrefixes ≤ 65535 := by
  rcases updatePeerInState_ok h with
    ⟨-, rfl⟩ | ⟨-, peer, table, peersByIp, hpeer, hslice, hrebuilt, rfl⟩
  · exact hs
  · exact hrouted.fits_of_rebuilt hslice hrebuilt
      (Bounded.lookup_replace_self _ (Bounded.mem_of_lookup hpeer))
      fun k hk => Bounded.lookup_replace_ne _ hk

theorem peerByKey_removePeerFromState (s : PeerState K) (publicKey key : PublicKey) :
    (removePeerFromState s publicKey).peerByKey key =
      if key = publicKey then none else s.peerByKey key := by
  rw [removePeerFromState_eq]
  split
  · rename_i hpeer
    split
    · rename_i hk
      rw [hk, hpeer]
    · rfl
  · change (s.peers.erase publicKey).lookup key = _
    split
    · rename_i hk
      rw [hk, AList.lookup_erase]
    · rename_i hk
      exact AList.lookup_erase_ne hk

theorem removePeerFromState_fits {s : PeerState K} (hs : nodesNeeded s.allPrefixes ≤ 65535)
    (publicKey : PublicKey) : nodesNeeded (removePeerFromState s publicKey).allPrefixes ≤ 65535 := by
  refine (nodesNeeded_mono fun n hn => ?_).trans hs
  obtain ⟨key, peer, hpeer, hn⟩ := PeerState.mem_allPrefixes.mp hn
  rw [peerByKey_removePeerFromState] at hpeer
  split at hpeer
  · cases hpeer
  · exact PeerState.mem_allPrefixes.mpr ⟨key, peer, hpeer, hn⟩

theorem handlePeerUpdate_ready {c : Command} {completion : CommandCompletion}
    (hd : d.Ready) (h : d.handlePeerUpdate c = .ok (completion, d')) : d'.Ready := by
  have htables := handlePeerUpdate_tables h hd.tables
  cases handlePeerUpdate_cases h with
  | none | unknown | list => exact hd
  | get => exact ⟨htables, hd.profile, hd.seeded, hd.fits⟩
  | remove => exact ⟨htables, hd.profile, hd.seeded, removePeerFromState_fits hd.fits _⟩
  | update call =>
    rw [hd.profile] at call
    exact ⟨htables, hd.profile, hd.seeded, updatePeerInState_fits hd.tables.routed hd.fits call⟩
  | add call =>
    have hseeded := addPeerToState_seeded hd.seeded call
    rw [hd.profile] at call
    exact ⟨htables, hd.profile, hseeded, addPeerToState_fits hd.tables.routed hd.fits call⟩

theorem new_ready {config : Config K} {resources : Resources} {draws : Draws} {clock : ℕ → ℕ}
    {secrets : ℕ → K.Secret} (h : new .alloc config resources draws clock secrets = .ok (.ok d)) :
    d.Ready := by
  have hempty : nodesNeeded (PeerState.new : PeerState K).allPrefixes ≤ 65535 := by
    change nodesNeeded ([] : List NetKey).toFinset ≤ 65535
    exact nodesNeeded_le_of_length (by decide)
  obtain ⟨hprofile, -, -, hlfsr, -, -, hfits⟩ := new_invariant
    (I := fun s g _ => g.lfsr ≠ 0 ∧ s.Routed ∧ s.Indexed g ∧ nodesNeeded s.allPrefixes ≤ 65535) h
    (fun hcall ⟨hg, hrouted, hindexed, hs⟩ => by
      obtain ⟨hrouted', hindexed'⟩ := addPeerToState_tables hcall hrouted hindexed
      exact ⟨addPeerToState_seeded hg hcall, hrouted', hindexed', addPeerToState_fits hrouted hs hcall⟩)
    ⟨IndexGenerator.initializeWith_seeded _ _ _, PeerState.new_routed, PeerState.new_indexed _, hempty⟩
  exact ⟨new_tables h, hprofile, hlfsr, hfits⟩

/-- No other peer has the address, and the tries have room for it. -/
structure Takes (d : Device K N BYTES) (key : PublicKey) (ip : Option IpAddr) : Prop where
  free : ∀ a, ip = some a → ∀ other, other ≠ key → d.peers.hasIp other a = false
  fits : nodesNeeded (d.peers.prefixesWith key (hostNets ip)) ≤ 65535

structure Placed (d : Device K N BYTES) (key : PublicKey) (ip : Option IpAddr)
    (d' : Device K N BYTES) : Prop where
  own : ∃ peer, d'.peers.peerByKey key = some peer ∧
    ∀ n, n ∈ peer.allowedIps.prefixes ↔ n ∈ hostNets ip
  others : ∀ k, k ≠ key → d'.peers.peerByKey k = d.peers.peerByKey k

namespace Placed

variable {key : PublicKey} {ip : Option IpAddr}

theorem mem_peers (h : Placed d key ip d') (k : PublicKey) :
    k ∈ d'.peers.peers ↔ k = key ∨ k ∈ d.peers.peers := by
  by_cases hk : k = key
  · obtain ⟨peer, hpeer, -⟩ := h.own
    subst hk
    simp [Bounded.mem_of_lookup hpeer]
  · rw [Bounded.mem_congr (h.others k hk)]
    simp [hk]

theorem hasIp_self (h : Placed d key ip d') (hd' : d'.peers.Routed) (a : IpAddr) :
    d'.peers.hasIp key a = true ↔ ip = some a := by
  obtain ⟨peer, hpeer, hnets⟩ := h.own
  exact PeerState.hasIp_of_table hd' hpeer hnets a

theorem hasIp_ne (h : Placed d key ip d') {k : PublicKey} (hk : k ≠ key) (a : IpAddr) :
    d'.peers.hasIp k a = d.peers.hasIp k a :=
  PeerState.hasIp_congr (h.others k hk) a

theorem allPrefixes (h : Placed d key ip d') :
    d'.peers.allPrefixes = d.peers.prefixesWith key (hostNets ip) := by
  obtain ⟨peer, hpeer, hnets⟩ := h.own
  exact PeerState.allPrefixes_of_write hpeer hnets h.others

theorem prefixesAfter {ips : PublicKey → Option IpAddr} (h : Placed d key (ips key) d')
    (done : List PublicKey) :
    d'.peers.prefixesAfter ips done = d.peers.prefixesAfter ips (key :: done) := by
  obtain ⟨peer, hpeer, hnets⟩ := h.own
  exact PeerState.prefixesAfter_of_write hpeer hnets h.others done

theorem takes (h : Placed d key ip d) (hd : d.Ready) : d.Takes key ip where
  free a ha other hother := by
    rw [Bool.eq_false_iff]
    intro hhas
    exact hother (hd.tables.routed.hasIp_unique hhas ((h.hasIp_self hd.tables.routed a).mpr ha))
  fits := h.allPrefixes ▸ hd.fits

end Placed

theorem takes_iff_rebuilt (hd : d.Ready) (key : PublicKey) {ip : Option IpAddr}
    {table : AllowedIPs Unit} {m : RouteMap Unit} (href : table.Refines m)
    (hnets : ∀ n, n ∈ table.prefixes ↔ n ∈ hostNets ip) :
    ∃ r, d.peers.rebuiltPeersByIpWith .alloc key table = .ok r ∧ ((∃ t, r = .ok t) ↔ d.Takes key ip) := by
  obtain ⟨r, hr, hiff⟩ := PeerState.rebuiltPeersByIpWith_iff hd.tables.routed key href hnets
  exact ⟨r, hr, hiff.trans ⟨fun h => ⟨h.1, h.2⟩, fun h => ⟨h.free, h.fits⟩⟩⟩

theorem handlePeerUpdate_update_iff (hd : d.Ready) {config : PeerConfig} {ip : Option IpAddr}
    (hconfig : config.allowedIps = ip.toList.map DesiredPeer.hostNet)
    (hmem : config.publicKey ∈ d.peers.peers) :
    ∃ c d', d.handlePeerUpdate (.update config) = .ok (c, d') ∧
      ((∃ o, c = .ok o) ↔ d.Takes config.publicKey ip) ∧
      ((∃ o, c = .ok o) → Placed d config.publicKey ip d' ∧
        d'.indexGenerator = d.indexGenerator) := by
  obtain ⟨peer, hpeer⟩ := Option.isSome_iff_exists.mp (AList.lookup_isSome.mpr hmem)
  obtain ⟨table, m, hslice, href, hnets⟩ := Peer.allowedIpsFromSlice_hosts ip
  obtain ⟨r, hrebuilt, hiff⟩ := takes_iff_rebuilt hd config.publicKey href hnets
  have hpeer' : d.peers.peerByKey config.publicKey = some peer := hpeer
  cases r with
  | error e =>
    refine ⟨.error e, { d with profile := .alloc }, ?_, ?_, fun ⟨o, ho⟩ => nomatch ho⟩
    · simp only [handlePeerUpdate, updatePeerInState, hpeer', hd.profile, hconfig, hslice, ok_bind,
        hrebuilt, pure_eq_ok]
      rfl
    · rw [← hiff]
      simp
  | ok peersByIp =>
    have hrun : d.handlePeerUpdate (.update config) = .ok (.ok .none, { d with
        peers := { d.peers with
          peers := d.peers.peers.replace config.publicKey (updatedPeer config table peer)
          peersByIp := peersByIp } }) := by
      simp only [handlePeerUpdate, updatePeerInState, hpeer', hd.profile, hconfig, hslice, ok_bind,
        hrebuilt, pure_eq_ok]
      rfl
    refine ⟨_, _, hrun, ?_, fun _ => ⟨⟨?_, ?_⟩, rfl⟩⟩
    · rw [← hiff]
      simp
    · exact ⟨_, Bounded.lookup_replace_self _ hmem, hnets⟩
    · exact fun k hk => Bounded.lookup_replace_ne _ hk

theorem handlePeerUpdate_add_iff (hd : d.Ready) {config : PeerConfig} {ip : Option IpAddr}
    (hconfig : config.allowedIps = ip.toList.map DesiredPeer.hostNet)
    (hnew : config.publicKey ∉ d.peers.peers) (hindexes : d.indexGenerator.remaining ≠ 0) :
    ∃ c d', d.handlePeerUpdate (.add config) = .ok (c, d') ∧
      ((∃ o, c = .ok o) ↔ d.Takes config.publicKey ip) ∧
      ((∃ o, c = .ok o) → Placed d config.publicKey ip d' ∧
        d'.indexGenerator.remaining + 1 = d.indexGenerator.remaining) := by
  have hpeer : d.peers.peerByKey config.publicKey = none := AList.lookup_eq_none.mpr hnew
  obtain ⟨table, m, hslice, href, hnets⟩ := Peer.allowedIpsFromSlice_hosts ip
  obtain ⟨r, hrebuilt, hiff⟩ := takes_iff_rebuilt hd config.publicKey href hnets
  obtain ⟨index, g, hindex⟩ := IndexGenerator.exists_newIndex hd.seeded hindexes
  have hremaining : g.remaining + 1 = d.indexGenerator.remaining :=
    (IndexGenerator.newIndex_ok hindex).2.2.2.2
  cases r with
  | error e =>
    refine ⟨.error e, { d with indexGenerator := g, world := d.world.now.2 }, ?_, ?_, ?_⟩
    · simp only [handlePeerUpdate, addPeerToState, hpeer, hd.profile, hconfig, hindex, hslice, ok_bind,
        Peer.new, hrebuilt, pure_eq_ok, Option.isSome_none]
      rfl
    · rw [← hiff]
      simp
    · rintro ⟨o, ho⟩
      cases ho
  | ok peersByIp =>
    have hstored : ∀ (peer : Peer K), d.peers.insertPeerStorage .alloc config.publicKey index peer =
        (.ok (), { d.peers with
          peers := d.peers.peers.insert config.publicKey peer
          peersByIdx := d.peers.peersByIdx.insert index config.publicKey }) := by
      intro peer
      simp [PeerState.insertPeerStorage, Bounded.tryInsertEntry, Bounded.isFull, Profile.maxPeers]
    have hrun : d.handlePeerUpdate (.add config) = .ok (.ok .none, { d with
        peers :=
          { peers := d.peers.peers.insert config.publicKey
              (newPeer config d.privateKey index d.stamper table d.world)
            peersByIp := peersByIp
            peersByIdx := d.peers.peersByIdx.insert index config.publicKey }
        indexGenerator := g
        world := d.world.now.2 }) := by
      simp only [handlePeerUpdate, addPeerToState, hpeer, hd.profile, hconfig, hindex, hslice, ok_bind,
        Peer.new, hrebuilt, pure_eq_ok, Option.isSome_none, hstored]
      rfl
    refine ⟨_, _, hrun, ?_, fun _ => ⟨⟨?_, ?_⟩, hremaining⟩⟩
    · rw [← hiff]
      simp
    · exact ⟨_, AList.lookup_insert _, hnets⟩
    · exact fun k hk => AList.lookup_insert_ne hk

/-! ### What was written to a device -/

def record (installed : PublicKey → Option PeerConfig) : Command → PublicKey → Option PeerConfig
  | .add config | .update config => Function.update installed config.publicKey (some config)
  | .remove publicKey => Function.update installed publicKey none
  | .none | .get _ | .list => installed

def recordOf (installed : PublicKey → Option PeerConfig) (c : Command) :
    CommandCompletion → PublicKey → Option PeerConfig
  | .ok _ => record installed c
  | .error _ => installed

structure Linked (d : Device K N BYTES) (installed : PublicKey → Option PeerConfig) : Prop where
  ready : d.Ready
  keys : ∀ key, key ∈ d.peers.peers ↔ (installed key).isSome
  prefixes : ∀ key config, installed key = some config → ∃ peer, d.peers.peerByKey key = some peer ∧
    ∀ n, n ∈ peer.allowedIps.prefixes ↔ n ∈ config.allowedIps.map NetKey.ofNet

variable {installed : PublicKey → Option PeerConfig}

theorem Linked.placed (h : d.Linked installed) {key : PublicKey} {config : PeerConfig}
    {ip : Option IpAddr} (hconfig : installed key = some config)
    (hips : config.allowedIps = ip.toList.map DesiredPeer.hostNet) : Placed d key ip d := by
  obtain ⟨peer, hpeer, hnets⟩ := h.prefixes key config hconfig
  rw [hips, map_ofNet_hostNet] at hnets
  exact ⟨⟨peer, hpeer, hnets⟩, fun _ _ => rfl⟩

theorem Linked.ips (h : d.Linked installed) (key : PublicKey) (config : PeerConfig)
    (ip : Option IpAddr) (hconfig : installed key = some config)
    (hips : config.allowedIps = ip.toList.map DesiredPeer.hostNet) (a : IpAddr) :
    d.peers.hasIp key a = true ↔ ip = some a :=
  (h.placed hconfig hips).hasIp_self h.ready.tables.routed a

theorem Linked.of_peers (h : d.Linked installed) (hready : d'.Ready) (hpeers : d'.peers = d.peers) :
    d'.Linked installed where
  ready := hready
  keys := by
    rw [hpeers]
    exact h.keys
  prefixes := by
    rw [hpeers]
    exact h.prefixes

theorem Linked.write (h : d.Linked installed) (hready : d'.Ready) {config : PeerConfig} {peer : Peer K}
    (hkey : d'.peers.peerByKey config.publicKey = some peer)
    (hslice : Peer.allowedIpsFromSlice .alloc config.allowedIps = .ok (.ok peer.allowedIps))
    (hothers : ∀ k, k ≠ config.publicKey → d'.peers.peerByKey k = d.peers.peerByKey k) :
    d'.Linked (Function.update installed config.publicKey (some config)) where
  ready := hready
  keys key := by
    by_cases hk : key = config.publicKey
    · subst hk
      simp [Bounded.mem_of_lookup hkey]
    · rw [Function.update_of_ne hk, ← h.keys]
      exact Bounded.mem_congr (hothers key hk)
  prefixes key config' hconfig' := by
    by_cases hk : key = config.publicKey
    · subst hk
      rw [Function.update_self] at hconfig'
      cases hconfig'
      exact ⟨peer, hkey, (Peer.mem_prefixes_of_slice hslice).2⟩
    · rw [Function.update_of_ne hk] at hconfig'
      rw [hothers key hk]
      exact h.prefixes key config' hconfig'

theorem handlePeerUpdate_linked {c : Command} {completion : CommandCompletion}
    (hd : d.Linked installed) (h : d.handlePeerUpdate c = .ok (completion, d')) :
    d'.Linked (recordOf installed c completion) := by
  have hready := handlePeerUpdate_ready hd.ready h
  cases handlePeerUpdate_cases h with
  | none | unknown | list => exact hd
  | get => exact hd.of_peers hready rfl
  | @remove publicKey =>
    change Linked _ (Function.update installed publicKey none)
    refine ⟨hready, fun key => ?_, fun key config hconfig => ?_⟩
    · have hlookup := peerByKey_removePeerFromState d.peers publicKey key
      by_cases hk : key = publicKey
      · rw [if_pos hk] at hlookup
        subst hk
        rw [Function.update_self]
        exact iff_of_false (AList.lookup_eq_none.mp hlookup) (by simp)
      · rw [if_neg hk] at hlookup
        rw [Function.update_of_ne hk, ← hd.keys]
        exact Bounded.mem_congr hlookup
    · have hk : key ≠ publicKey := by
        rintro rfl
        simp at hconfig
      rw [Function.update_of_ne hk] at hconfig
      obtain ⟨peer, hpeer, hnets⟩ := hd.prefixes key config hconfig
      have hkept := (peerByKey_removePeerFromState d.peers publicKey key).trans (if_neg hk)
      exact ⟨peer, hkept.trans hpeer, hnets⟩
  | add call =>
    rcases addPeerToState_ok call with
      ⟨⟨e, rfl⟩, rfl, -⟩ | ⟨rfl, -, -, index, table, peersByIp, -, hslice, -, rfl⟩
    · exact hd.of_peers hready rfl
    · rw [hd.ready.profile] at hslice
      exact hd.write hready (AList.lookup_insert _) hslice fun k hk => AList.lookup_insert_ne hk
  | update call =>
    rcases updatePeerInState_ok call with
      ⟨⟨e, rfl⟩, rfl⟩ | ⟨rfl, peer, table, peersByIp, hpeer, hslice, -, rfl⟩
    · exact hd.of_peers hready rfl
    · rw [hd.ready.profile] at hslice
      exact hd.write hready (Bounded.lookup_replace_self _ (Bounded.mem_of_lookup hpeer)) hslice
        fun k hk => Bounded.lookup_replace_ne _ hk

end Device

end Tendrilix
