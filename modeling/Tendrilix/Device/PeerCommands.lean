import Tendrilix.Device.PeerRoutes

/-!
# When a peer command succeeds

A command is refused for its key, for an overlap, or for want of room, in no other case. The answer
depends on what is configured and not on the order of the peer map. A command that fails leaves the
peer table as it was.
-/

namespace Tendrilix

open AllowedIps Noise

variable {K : Crypto} {N BYTES : ℕ}

def PeerConfig.prefixes (config : PeerConfig) : List NetKey := config.allowedIps.map .ofNet

namespace PeerState

structure Room (profile : Profile) (s : PeerState K) (config : PeerConfig) : Prop where
  own : nodesNeeded config.prefixes.toFinset ≤ nodeLimit profile.maxAllowedIpsPerPeer
  routes : nodesNeeded (s.prefixesWith config.publicKey config.prefixes) ≤
    nodeLimit profile.peerRoutes

def Open (profile : Profile) (s : PeerState K) : Prop :=
  Bounded.isFull profile.maxPeers s.peers = false ∧
    Bounded.isFull profile.maxPeers s.peersByIdx = false

def addRefusal (s : PeerState K) (key : PublicKey) : Option Device.Error :=
  if (s.peerByKey key).isSome then some .peerAlreadyExists else none

def updateRefusal (s : PeerState K) (key : PublicKey) : Option Device.Error :=
  if (s.peerByKey key).isSome then none else some .peerNotFound

end PeerState

namespace Device

inductive Verdict (profile : Profile) (s : PeerState K) (config : PeerConfig)
    (refusal : Option Error) (slots : Prop) : Except Error Unit → Prop
  | refused {e : Error} (key : refusal = some e) : Verdict profile s config refusal slots (.error e)
  | ok (key : refusal = none) (admits : s.Admits config.publicKey config.prefixes)
      (room : s.Room profile config) : Verdict profile s config refusal slots (.ok ())
  | overlap (key : refusal = none) (taken : ¬s.Admits config.publicKey config.prefixes) :
      Verdict profile s config refusal slots (.error .allowedIPOverlap)
  | full (key : refusal = none) (exceeds : s.Room profile config → ¬slots) :
      Verdict profile s config refusal slots (.error .capacity)

variable {profile : Profile} {s s' : PeerState K} {config : PeerConfig} {refusal : Option Error}
  {slots : Prop} {r r' : Except Error Unit}

inductive Prepared (profile : Profile) (s : PeerState K) (config : PeerConfig) : Prop
  | ready {table : AllowedIPs Unit} {peersByIp : AllowedIPs PublicKey}
      (slice : Peer.allowedIpsFromSlice profile config.allowedIps = .ok (.ok table))
      (rebuilt : s.rebuiltPeersByIpWith profile config.publicKey table = .ok (.ok peersByIp))
      (admits : s.Admits config.publicKey config.prefixes) (room : s.Room profile config)
  | overlap {table : AllowedIPs Unit}
      (slice : Peer.allowedIpsFromSlice profile config.allowedIps = .ok (.ok table))
      (rebuilt : s.rebuiltPeersByIpWith profile config.publicKey table =
        .ok (.error .allowedIPOverlap))
      (taken : ¬s.Admits config.publicKey config.prefixes)
  | routesFull {table : AllowedIPs Unit}
      (slice : Peer.allowedIpsFromSlice profile config.allowedIps = .ok (.ok table))
      (rebuilt : s.rebuiltPeersByIpWith profile config.publicKey table = .ok (.error .capacity))
      (exceeds : ¬s.Room profile config)
  | tableFull (slice : Peer.allowedIpsFromSlice profile config.allowedIps = .ok (.error .capacity))
      (exceeds : ¬s.Room profile config)

theorem prepared (profile : Profile) (h : s.Routed) (config : PeerConfig) :
    Prepared profile s config := by
  rcases Peer.allowedIpsFromSlice_cases profile config.allowedIps with
    ⟨table, hslice, hspans⟩ | ⟨hlt, hslice⟩
  · obtain ⟨m, href, -⟩ := hspans.live
    have hnets : ∀ n, n ∈ table.prefixes ↔ n ∈ config.prefixes := fun n =>
      hspans.mem_prefixes.trans List.mem_toFinset
    obtain ⟨r, hrebuilt, hverdict⟩ :=
      PeerState.rebuiltPeersByIpWith_verdict profile h config.publicKey href hnets
    cases hverdict with
    | ok hadmits hroom => exact .ready hslice hrebuilt hadmits ⟨hspans.nodesNeeded_le, hroom⟩
    | overlap htaken => exact .overlap hslice hrebuilt htaken
    | full hexceeds =>
      exact .routesFull hslice hrebuilt fun hroom => not_le.mpr hexceeds hroom.routes
  · exact .tableFull hslice fun hroom => not_le.mpr hlt hroom.own

theorem insertPeerStorage_of_open (key : PublicKey) (index : ℕ) (peer : Peer K)
    (hopen : s.Open profile) : (s.insertPeerStorage profile key index peer).1 = .ok () := by
  rw [PeerState.insertPeerStorage, Bounded.tryInsertEntry, if_pos (.inr (by simp [hopen.1]))]
  dsimp only
  rw [Bounded.tryInsertEntry, if_pos (.inr (by simp [hopen.2]))]

theorem addPeerToState_verdict (profile : Profile) (h : s.Routed) (config : PeerConfig)
    (privateKey : K.Secret) {g g' : IndexGenerator} {index : ℕ}
    (hnext : g.newIndex = .ok (index, g')) (stamper : TimeStamper) (w : World K N BYTES) :
    ∃ r s' g₁ w₁, addPeerToState profile s config privateKey g stamper w = .ok (r, s', g₁, w₁) ∧
      Verdict profile s config (s.addRefusal config.publicKey) (s.Open profile) r := by
  by_cases hpresent : (s.peerByKey config.publicKey).isSome = true
  · refine ⟨.error .peerAlreadyExists, s, g, w, ?_, .refused ?_⟩
    · rw [addPeerToState, if_pos hpresent]
    · rw [PeerState.addRefusal, if_pos hpresent]
  have hkey : s.addRefusal config.publicKey = none := if_neg hpresent
  cases prepared profile h config with
  | @ready table peersByIp hslice hrebuilt hadmits hroom =>
    cases hstored : s.insertPeerStorage profile config.publicKey index
        (newPeer config privateKey index stamper table w) with
    | mk r s₁ =>
      cases r with
      | error e =>
        have habsent : s.peerByKey config.publicKey = none :=
          Option.not_isSome_iff_eq_none.mp hpresent
        rcases PeerState.insertPeerStorage_cases profile index
          (newPeer config privateKey index stamper table w) habsent with hfull | hok
        · cases hstored.symm.trans hfull
          refine ⟨.error .capacity, s, g', w.now.2, ?_, .full hkey fun _ hopen => ?_⟩
          · dsimp only [newPeer] at hfull
            simp only [addPeerToState, if_neg hpresent, hnext, ok_bind, Peer.new, hslice, hrebuilt,
              pure_eq_ok, hfull]
            rfl
          · have hok := insertPeerStorage_of_open config.publicKey index
              (newPeer config privateKey index stamper table w) hopen
            rw [hfull] at hok
            cases hok
        · cases hstored.symm.trans hok
      | ok u =>
        refine ⟨.ok (), { s₁ with peersByIp := peersByIp }, g', w.now.2, ?_, .ok hkey hadmits hroom⟩
        dsimp only [newPeer] at hstored
        simp only [addPeerToState, if_neg hpresent, hnext, ok_bind, Peer.new, hslice, hrebuilt,
          pure_eq_ok, hstored]
        rfl
  | overlap hslice hrebuilt htaken =>
    refine ⟨.error .allowedIPOverlap, s, g', w.now.2, ?_, .overlap hkey htaken⟩
    simp only [addPeerToState, if_neg hpresent, hnext, ok_bind, Peer.new, hslice, hrebuilt, pure_eq_ok]
    rfl
  | routesFull hslice hrebuilt hexceeds =>
    refine ⟨.error .capacity, s, g', w.now.2, ?_, .full hkey fun hroom => absurd hroom hexceeds⟩
    simp only [addPeerToState, if_neg hpresent, hnext, ok_bind, Peer.new, hslice, hrebuilt, pure_eq_ok]
    rfl
  | tableFull hslice hexceeds =>
    refine ⟨.error .capacity, s, g', w.now.2, ?_, .full hkey fun hroom => absurd hroom hexceeds⟩
    simp only [addPeerToState, if_neg hpresent, hnext, ok_bind, Peer.new, hslice, pure_eq_ok]
    rfl

theorem updatePeerInState_verdict (profile : Profile) (h : s.Routed) (config : PeerConfig) :
    ∃ r s', updatePeerInState profile s config = .ok (r, s') ∧
      Verdict profile s config (s.updateRefusal config.publicKey) True r := by
  cases hpeer : s.peerByKey config.publicKey with
  | none =>
    refine ⟨.error .peerNotFound, s, by rw [updatePeerInState, hpeer], .refused ?_⟩
    rw [PeerState.updateRefusal, hpeer]
    rfl
  | some peer =>
    have hkey : s.updateRefusal config.publicKey = none := by
      rw [PeerState.updateRefusal, hpeer]
      rfl
    cases prepared profile h config with
    | @ready table peersByIp hslice hrebuilt hadmits hroom =>
      refine ⟨.ok (), { s.setPeer config.publicKey (updatedPeer config table peer) with
        peersByIp := peersByIp }, ?_, .ok hkey hadmits hroom⟩
      simp only [updatePeerInState, hpeer, hslice, hrebuilt, ok_bind, pure_eq_ok]
      rfl
    | overlap hslice hrebuilt htaken =>
      refine ⟨.error .allowedIPOverlap, s, ?_, .overlap hkey htaken⟩
      simp only [updatePeerInState, hpeer, hslice, hrebuilt, ok_bind, pure_eq_ok]
    | routesFull hslice hrebuilt hexceeds =>
      refine ⟨.error .capacity, s, ?_, .full hkey fun hroom => absurd hroom hexceeds⟩
      simp only [updatePeerInState, hpeer, hslice, hrebuilt, ok_bind, pure_eq_ok]
    | tableFull hslice hexceeds =>
      refine ⟨.error .capacity, s, ?_, .full hkey fun hroom => absurd hroom hexceeds⟩
      simp only [updatePeerInState, hpeer, hslice, ok_bind, pure_eq_ok]

/-! ### Answers in a device with room -/

theorem Verdict.ok_iff (h : Verdict profile s config refusal slots r) (hroom : s.Room profile config)
    (hslots : slots) :
    r = .ok () ↔ refusal = none ∧ s.Admits config.publicKey config.prefixes := by
  cases h with
  | refused hkey => exact ⟨fun h => (nomatch h), fun h => nomatch hkey.symm.trans h.1⟩
  | ok hkey hadmits => exact ⟨fun _ => ⟨hkey, hadmits⟩, fun _ => rfl⟩
  | overlap _ htaken => exact ⟨fun h => (nomatch h), fun h => absurd h.2 htaken⟩
  | full _ hexceeds => exact absurd hslots (hexceeds hroom)

theorem Verdict.unique (h : Verdict profile s config refusal slots r)
    (h' : Verdict profile s config refusal slots r') (hroom : s.Room profile config) (hslots : slots) :
    r = r' := by
  cases h with
  | refused hkey =>
    cases h' with
    | refused hkey' =>
      cases hkey.symm.trans hkey'
      rfl
    | ok hkey' | overlap hkey' | full hkey' => cases hkey.symm.trans hkey'
  | ok hkey hadmits =>
    cases h' with
    | refused hkey' => cases hkey.symm.trans hkey'
    | ok => rfl
    | overlap _ htaken => exact absurd hadmits htaken
    | full _ hexceeds => exact absurd hslots (hexceeds hroom)
  | overlap hkey htaken =>
    cases h' with
    | refused hkey' => cases hkey.symm.trans hkey'
    | ok _ hadmits => exact absurd hadmits htaken
    | overlap => rfl
    | full _ hexceeds => exact absurd hslots (hexceeds hroom)
  | full _ hexceeds => exact absurd hslots (hexceeds hroom)

theorem Verdict.congr {slots' : Prop} (h : Verdict profile s' config refusal slots' r)
    (hsame : ∀ key, s'.peerByKey key = s.peerByKey key) (hslots : slots') :
    Verdict profile s config refusal slots r := by
  have hadmits : s'.Admits config.publicKey config.prefixes ↔
      s.Admits config.publicKey config.prefixes :=
    ⟨fun h => h.congr fun key => (hsame key).symm, fun h => h.congr hsame⟩
  have hroom : s'.Room profile config ↔ s.Room profile config := by
    have hprefixes := PeerState.prefixesWith_congr hsame config.publicKey config.prefixes
    exact ⟨fun h => ⟨h.own, hprefixes ▸ h.routes⟩, fun h => ⟨h.own, hprefixes.symm ▸ h.routes⟩⟩
  cases h with
  | refused hkey => exact .refused hkey
  | ok hkey hok hfits => exact .ok hkey (hadmits.mp hok) (hroom.mp hfits)
  | overlap hkey htaken => exact .overlap hkey (mt hadmits.mpr htaken)
  | full hkey hexceeds => exact .full hkey fun hfits => absurd hslots (hexceeds (hroom.mpr hfits))

def reordered (d : Device K N BYTES) (order : List PublicKey) : Device K N BYTES :=
  { d with peers := { d.peers with peers := Bounded.reorder order d.peers.peers } }

variable {d : Device K N BYTES}

theorem reordered_routed (h : d.peers.Routed) (order : List PublicKey) :
    (d.reordered order).peers.Routed :=
  h.of_same (fun key => congrArg _ (Bounded.lookup_reorder order d.peers.peers key)) rfl

theorem room_alloc
    (hroom : nodesNeeded (d.peers.prefixesWith config.publicKey config.prefixes) < 65535) :
    d.peers.Room .alloc config :=
  ⟨(nodesNeeded_mono Finset.subset_union_left).trans hroom.le, hroom.le⟩

theorem add_reordered (h : d.peers.Routed) (hprofile : d.profile = .alloc) (config : PeerConfig)
    {index : ℕ} {g' : IndexGenerator} (hnext : d.indexGenerator.newIndex = .ok (index, g'))
    (order : List PublicKey) :
    ∃ r d', (d.reordered order).handlePeerUpdate (.add config) =
        .ok (r.map fun _ => CommandOutput.none, d') ∧
      Verdict .alloc d.peers config (d.peers.addRefusal config.publicKey) True r := by
  obtain ⟨r, s', g₁, w₁, hcall, hverdict⟩ := addPeerToState_verdict .alloc (reordered_routed h order)
    config d.privateKey hnext d.stamper d.world
  have hsame : ∀ key, (d.reordered order).peers.peerByKey key = d.peers.peerByKey key :=
    Bounded.lookup_reorder order d.peers.peers
  have hrefusal : (d.reordered order).peers.addRefusal config.publicKey =
      d.peers.addRefusal config.publicKey := by
    rw [PeerState.addRefusal, PeerState.addRefusal, hsame]
  rw [hrefusal] at hverdict
  rw [← hprofile] at hcall
  exact ⟨r, _, bind_ok_iff.mpr ⟨_, hcall, rfl⟩, hverdict.congr hsame ⟨rfl, rfl⟩⟩

theorem update_reordered (h : d.peers.Routed) (hprofile : d.profile = .alloc) (config : PeerConfig)
    (order : List PublicKey) :
    ∃ r d', (d.reordered order).handlePeerUpdate (.update config) =
        .ok (r.map fun _ => CommandOutput.none, d') ∧
      Verdict .alloc d.peers config (d.peers.updateRefusal config.publicKey) True r := by
  obtain ⟨r, s', hcall, hverdict⟩ :=
    updatePeerInState_verdict .alloc (reordered_routed h order) config
  have hsame : ∀ key, (d.reordered order).peers.peerByKey key = d.peers.peerByKey key :=
    Bounded.lookup_reorder order d.peers.peers
  have hrefusal : (d.reordered order).peers.updateRefusal config.publicKey =
      d.peers.updateRefusal config.publicKey := by
    rw [PeerState.updateRefusal, PeerState.updateRefusal, hsame]
  rw [hrefusal] at hverdict
  rw [← hprofile] at hcall
  exact ⟨r, _, bind_ok_iff.mpr ⟨_, hcall, rfl⟩, hverdict.congr hsame trivial⟩

theorem exists_answer {c : Command} (hroom : d.peers.Room .alloc config)
    (hcall : ∀ order, ∃ r d', (d.reordered order).handlePeerUpdate c =
        .ok (r.map fun _ => CommandOutput.none, d') ∧
      Verdict .alloc d.peers config refusal True r) :
    ∃ answer, (∀ order, ∃ d', (d.reordered order).handlePeerUpdate c = .ok (answer, d')) ∧
      (answer = .ok .none ↔
        refusal = none ∧ d.peers.Admits config.publicKey config.prefixes) := by
  obtain ⟨r, d', -, hverdict⟩ := hcall []
  refine ⟨r.map fun _ => CommandOutput.none, fun order => ?_, ?_⟩
  · obtain ⟨r', d', hrun, hverdict'⟩ := hcall order
    rw [hverdict'.unique hverdict hroom trivial] at hrun
    exact ⟨d', hrun⟩
  · rw [← hverdict.ok_iff hroom trivial]
    cases r with
    | error e => exact ⟨fun h => (nomatch h), fun h => nomatch h⟩
    | ok u => exact ⟨fun _ => rfl, fun _ => rfl⟩

theorem peers_eq_of_error {c : Command} {config : PeerConfig}
    (hc : c = .add config ∨ c = .update config) {e : Error} {d' : Device K N BYTES}
    (h : d.handlePeerUpdate c = .ok (.error e, d')) : d'.peers = d.peers := by
  rcases hc with rfl | rfl
  · obtain ⟨⟨r, s', g', w'⟩, hcall, h⟩ := bind_ok_iff.mp h
    cases r with
    | ok u => cases h
    | error e =>
      cases h
      rcases addPeerToState_ok hcall with ⟨-, hs, -⟩ | ⟨hok, -⟩
      · exact hs
      · cases hok
  · obtain ⟨⟨r, s'⟩, hcall, h⟩ := bind_ok_iff.mp h
    cases r with
    | ok u => cases h
    | error e =>
      cases h
      rcases updatePeerInState_ok hcall with ⟨-, hs⟩ | ⟨hok, -⟩
      · exact hs
      · cases hok

/-- In the heap build, while the routes need fewer than 65535 nodes and indexes remain, adding a peer
succeeds exactly when its key is new and its prefixes are disjoint from each other and from those of
the configured peers; updating one succeeds exactly when its key is configured and its new prefixes
are disjoint from each other and from those of the other peers. The order of the peers does not
matter. In any build, a command that fails changes none of the tables. -/
theorem Reachable.peer_commands (h : d.Reachable) (config : PeerConfig) :
    (d.profile = .alloc →
      nodesNeeded (d.peers.prefixesWith config.publicKey config.prefixes) < 65535 →
      (∀ index g', d.indexGenerator.newIndex = .ok (index, g') → ∃ answer,
        (∀ order, ∃ d', (d.reordered order).handlePeerUpdate (.add config) = .ok (answer, d')) ∧
        (answer = .ok .none ↔ d.peers.peerByKey config.publicKey = none ∧
          d.peers.Admits config.publicKey config.prefixes)) ∧
      ∃ answer,
        (∀ order, ∃ d', (d.reordered order).handlePeerUpdate (.update config) = .ok (answer, d')) ∧
        (answer = .ok .none ↔ (d.peers.peerByKey config.publicKey).isSome ∧
          d.peers.Admits config.publicKey config.prefixes)) ∧
    ∀ c, c = .add config ∨ c = .update config → ∀ e d',
      d.handlePeerUpdate c = .ok (.error e, d') → d'.peers = d.peers := by
  refine ⟨fun hprofile hroom => ⟨fun index g' hnext => ?_, ?_⟩, fun c hc e d' => peers_eq_of_error hc⟩
  · obtain ⟨answer, hall, hiff⟩ := exists_answer (room_alloc hroom)
      (add_reordered h.tables.routed hprofile config hnext)
    refine ⟨answer, hall, hiff.trans (and_congr_left' ?_)⟩
    rw [PeerState.addRefusal]
    cases d.peers.peerByKey config.publicKey with
    | none => exact ⟨fun _ => rfl, fun _ => rfl⟩
    | some peer => exact ⟨fun h => (nomatch h), fun h => nomatch h⟩
  · obtain ⟨answer, hall, hiff⟩ := exists_answer (room_alloc hroom)
      (update_reordered h.tables.routed hprofile config)
    refine ⟨answer, hall, hiff.trans (and_congr_left' ?_)⟩
    rw [PeerState.updateRefusal]
    cases d.peers.peerByKey config.publicKey with
    | none => exact ⟨fun h => (nomatch h), fun h => nomatch h⟩
    | some peer => exact ⟨fun _ => rfl, fun _ => rfl⟩

theorem Reachable.peer_commands_third :
    ∃ d : Device Crypto.sample 8 8192, d.Reachable ∧ d.peers.peerKeys = [Sample.key 7, Sample.key 5] ∧
      ∀ order, ∃ d', (d.reordered order).handlePeerUpdate
        (.add (Sample.peerConfig 9 [Sample.net 0x0a010000 16 (by decide)] none)) = .ok (.ok .none, d') := by
  let config := Sample.peerConfig 9 [Sample.net 0x0a010000 16 (by decide)] none
  have hcheck : Sample.runAnd 1 [Sample.peerConfig 5 Sample.lan none]
      [.command (.add (Sample.peerConfig 7 [Sample.net 0x0a000000 16 (by decide)] none))]
      (fun (_, d) => d.profile = .alloc ∧ d.peers.peerKeys = [Sample.key 7, Sample.key 5] ∧
        nodesNeeded (d.peers.prefixesWith config.publicKey config.prefixes) < 65535 ∧
        d.peers.peerByKey config.publicKey = none ∧
        d.peers.Admits config.publicKey config.prefixes ∧
        okAnd (fun _ => true) d.indexGenerator.newIndex) = true := by decide +kernel
  obtain ⟨start, outputs, d, hnew, hrun, hp⟩ := Sample.exists_of_runAnd hcheck
  obtain ⟨hprofile, hkeys, hroom, habsent, hadmits, hnext⟩ := of_decide_eq_true hp
  obtain ⟨⟨index, g'⟩, hnext, -⟩ := exists_of_okAnd hnext
  have hreach : d.Reachable := ⟨_, _, _, _, _, _, start, _, outputs, hnew, hrun⟩
  obtain ⟨answer, hall, hiff⟩ := ((hreach.peer_commands config).1 hprofile hroom).1 index g' hnext
  rw [hiff.mpr ⟨habsent, hadmits⟩] at hall
  exact ⟨d, hreach, hkeys, hall⟩

end Device

end Tendrilix
