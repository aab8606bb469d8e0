import Tendrilix.Control.FailedMap
import Tendrilix.Device.Roaming

/-!
# Endpoints learned from traffic

The device learns where a peer is from the packets it authenticates. A configuration that is written
to it replaces the endpoint, also by none, so what was learned survives a map only while the peer is
not written at all.
-/

namespace Tendrilix

open Noise Control

variable {K : Crypto} {N BYTES : ℕ}

/-! ### Commands and endpoints -/

namespace Device

variable {d d' : Device K N BYTES} {completion : CommandCompletion}

theorem endpointOf_congr {key : PublicKey} (h : d'.peers.peerByKey key = d.peers.peerByKey key) :
    d'.endpointOf key = d.endpointOf key := by
  rw [endpointOf, endpointOf, h]

theorem endpointOf_add {config : PeerConfig}
    (h : d.handlePeerUpdate (.add config) = .ok (completion, d')) {key : PublicKey}
    (hkey : key ≠ config.publicKey) : d'.endpointOf key = d.endpointOf key := by
  obtain ⟨⟨r, peers, g, w⟩, hcall, h⟩ := bind_ok_iff.mp h
  cases h
  rcases addPeerToState_ok hcall with ⟨-, rfl, -⟩ | ⟨-, -, -, index, table, peersByIp, -, -, -, rfl⟩
  · rfl
  · exact endpointOf_congr (AList.lookup_insert_ne hkey)

theorem endpointOf_update {config : PeerConfig} {output : CommandOutput}
    (h : d.handlePeerUpdate (.update config) = .ok (.ok output, d')) (key : PublicKey) :
    d'.endpointOf key =
      if key = config.publicKey then some config.endpoint else d.endpointOf key := by
  obtain ⟨⟨r, peers⟩, hcall, h⟩ := bind_ok_iff.mp h
  rcases updatePeerInState_ok hcall with
    ⟨⟨e, rfl⟩, -⟩ | ⟨rfl, peer, table, peersByIp, hpeer, -, -, rfl⟩
  · cases h
  cases h
  by_cases hkey : key = config.publicKey
  · subst hkey
    have hself : (d.peers.peers.replace config.publicKey (updatedPeer config table peer)).lookup
        config.publicKey = some (updatedPeer config table peer) :=
      Bounded.lookup_replace_self _ (Bounded.mem_of_lookup hpeer)
    rw [if_pos rfl, endpointOf, PeerState.peerByKey, hself]
    rfl
  · rw [if_neg hkey]
    exact endpointOf_congr (Bounded.lookup_replace_ne _ hkey)

theorem endpointOf_remove {publicKey key : PublicKey} (hkey : key ≠ publicKey) :
    endpointOf { d with peers := removePeerFromState d.peers publicKey } key = d.endpointOf key := by
  apply endpointOf_congr
  change (removePeerFromState d.peers publicKey).peerByKey key = _
  rw [removePeerFromState_eq]
  split
  · rfl
  · exact AList.lookup_erase_ne hkey

def write (c : Command) (d : Device K N BYTES) : Call (Except Error Unit × Device K N BYTES) := do
  let (completion, d) ← d.handlePeerUpdate c
  return (completion.map fun _ => (), d)

instance : DeviceClient (Device K N BYTES) where
  addPeer config := write (.add config)
  updatePeer config := write (.update config)
  removePeer publicKey := write (.remove publicKey)
  getPeer publicKey d := do
    let (completion, d) ← d.handlePeerUpdate (.get publicKey)
    return (completion.bind fun
      | .peerInfo info => .ok info
      | _ => .error .io, d)
  listPeers d := do
    let (completion, d) ← d.handlePeerUpdate .list
    return (completion.bind fun
      | .peerKeys keys => .ok keys
      | _ => .error .io, d)

end Device

/-! ### One peer in a pass over a map -/

namespace Control.PeerReconciler

open Attempt
open NetMap (NetworkMap)

variable {b : Build} {map : NetworkMap} {now : ℕ} {order : List PublicKey} {key : PublicKey}
  {wanted : Bounded.Map PublicKey DesiredPeer}

structure Has (key : PublicKey) (endpoint : Option (Option SocketAddr)) (fingerprint : Option ℕ)
    (s : PeerReconciler (Device K N BYTES)) : Prop where
  endpoint : s.client.endpointOf key = endpoint
  fingerprint : s.appliedConfigFingerprints.lookup key = fingerprint

def PassesBy (key : PublicKey) (x : Pass (Device K N BYTES) Unit) : Prop :=
  ∀ endpoint fingerprint, Triple (Has key endpoint fingerprint) x
    (fun _ => Has key endpoint fingerprint) (fun _ => True)

theorem PassesBy.andThen {x y : Pass (Device K N BYTES) Unit} (hx : PassesBy key x)
    (hy : PassesBy key y) : PassesBy key (do x; y) :=
  fun endpoint fingerprint => Triple.bind (hx endpoint fingerprint) fun _ => hy endpoint fingerprint

theorem write_passesBy {c : Device.Command}
    (hc : ∀ (d d' : Device K N BYTES) (output : Device.CommandOutput),
      d.handlePeerUpdate c = .ok (.ok output, d') → d'.endpointOf key = d.endpointOf key) :
    PassesBy key (callClient (Device.write c) : Pass (Device K N BYTES) Unit) := by
  intro endpoint fingerprint
  refine callClient_triple (fun s _ d hs hop => ⟨?_, hs.fingerprint⟩) fun _ _ _ _ _ => trivial
  obtain ⟨⟨completion, d₁⟩, hcall, hop⟩ := bind_ok_iff.mp hop
  cases completion with
  | error e => cases hop
  | ok output =>
    cases hop
    exact (hc _ _ _ hcall).trans hs.endpoint

theorem removeVanishedPeer_passesBy (hkey : key ∈ wanted) (other : PublicKey) :
    PassesBy key (removeVanishedPeer wanted other : Pass (Device K N BYTES) Unit) := by
  rw [removeVanishedPeer]
  split
  · exact fun _ _ => Triple.pure () fun s hs => hs
  · rename_i hunwanted
    have hne : key ≠ other := by
      rintro rfl
      exact hunwanted hkey
    refine PassesBy.andThen (write_passesBy fun d d' output h => ?_) fun _ _ =>
      Triple.modify fun s hs => ⟨hs.endpoint, (AList.lookup_erase_ne hne).trans hs.fingerprint⟩
    cases h
    exact Device.endpointOf_remove hne

theorem insertFingerprint_passesBy {other : PublicKey} (hne : key ≠ other) (f : ℕ) :
    PassesBy key (insertFingerprint b other f : Pass (Device K N BYTES) Unit) := by
  intro endpoint fingerprint
  refine insertFingerprint_triple (fun s hs => ?_) fun _ _ _ => trivial
  exact ⟨hs.endpoint, (AList.lookup_insert_ne hne).trans hs.fingerprint⟩

theorem trackActivePolicy_passesBy (other : PublicKey) (activePolicy : ℕ) (routes : List RouteKey) :
    PassesBy key
      (trackActivePolicy b other activePolicy routes now : Pass (Device K N BYTES) Unit) := by
  intro endpoint fingerprint
  exact trackActivePolicy_triple (fun _ _ hs _ => ⟨hs.endpoint, hs.fingerprint⟩)
    (fun _ _ _ hs _ => ⟨hs.endpoint, hs.fingerprint⟩) fun _ _ _ _ => trivial

theorem applyConfig_passesBy (actual : List PublicKey) {config : PeerConfig}
    (hne : key ≠ config.publicKey) :
    PassesBy key (applyConfig b actual config.publicKey config : Pass (Device K N BYTES) Unit) := by
  have hupdate : PassesBy key
      (callClient (Device.write (.update config)) : Pass (Device K N BYTES) Unit) :=
    write_passesBy fun d d' output h => by rw [Device.endpointOf_update h, if_neg hne]
  have hadd : PassesBy key
      (callClient (Device.write (.add config)) : Pass (Device K N BYTES) Unit) :=
    write_passesBy fun d d' output h => Device.endpointOf_add h hne
  rw [applyConfig]
  split
  · intro endpoint fingerprint
    apply Triple.bind Triple.get
    intro r
    split
    · exact (hupdate.andThen (insertFingerprint_passesBy hne _) endpoint fingerprint).mono
        (fun _ hs => hs.2) (fun _ _ hs => hs) fun _ hs => hs
    · exact Triple.pure () fun s hs => hs.2
  · exact hadd.andThen (insertFingerprint_passesBy hne _)

theorem applyConfig_writes {actual : List PublicKey} {config : PeerConfig}
    (hactual : config.publicKey ∈ actual) (endpoint : Option (Option SocketAddr))
    (fingerprint : Option ℕ) :
    Triple (Has config.publicKey endpoint fingerprint)
      (applyConfig b actual config.publicKey config : Pass (Device K N BYTES) Unit)
      (fun _ s => s.client.endpointOf config.publicKey =
        if fingerprint = some (b.fingerprint config) then endpoint else some config.endpoint)
      (fun _ => True) := by
  rw [applyConfig, if_pos hactual]
  apply Triple.bind Triple.get
  intro r
  split
  · rename_i hchanged
    refine Triple.bind (Q := fun _ s => s.client.endpointOf config.publicKey = some config.endpoint ∧
      fingerprint ≠ some (b.fingerprint config)) ?_ fun _ => ?_
    · refine callClient_triple (fun s _ d hs hop => ?_) fun _ _ _ _ _ => trivial
      obtain ⟨rfl, hs⟩ := hs
      obtain ⟨⟨completion, d₁⟩, hcall, hop⟩ := bind_ok_iff.mp hop
      cases completion with
      | error e => cases hop
      | ok output =>
        cases hop
        refine ⟨(Device.endpointOf_update hcall _).trans (if_pos rfl), ?_⟩
        rw [← hs.fingerprint]
        exact hchanged
    · refine insertFingerprint_triple (fun s hs => ?_) fun _ _ _ => trivial
      rw [if_neg hs.2]
      exact hs.1
  · rename_i hsame
    apply Triple.pure
    rintro s ⟨rfl, hs⟩
    rw [not_not, hs.fingerprint] at hsame
    rw [if_pos hsame, hs.endpoint]

theorem applyPeer_passesBy (actual : List PublicKey) {other : PublicKey} {peer : DesiredPeer}
    (hpeer : peer.publicKey = other) (hne : key ≠ other) :
    PassesBy key (applyPeer b actual now ⟨other, peer⟩ : Pass (Device K N BYTES) Unit) := by
  subst hpeer
  have hconfig : key ≠ peer.config.publicKey := hne
  intro endpoint fingerprint
  refine Triple.bind (applyConfig_passesBy actual hconfig endpoint fingerprint) fun _ => ?_
  exact Triple.bind (Triple.ofExcept (fun _ _ s hs => hs) fun _ _ => trivial) fun routes =>
    trackActivePolicy_passesBy _ _ routes endpoint fingerprint

theorem applyPeer_writes {actual : List PublicKey} {peer : DesiredPeer}
    (hpeer : peer.publicKey = key) (hactual : key ∈ actual) (endpoint : Option (Option SocketAddr))
    (fingerprint : Option ℕ) :
    Triple (Has key endpoint fingerprint)
      (applyPeer b actual now ⟨key, peer⟩ : Pass (Device K N BYTES) Unit)
      (fun _ s => s.client.endpointOf key =
        if fingerprint = some (b.fingerprint peer.config) then endpoint
        else some peer.config.endpoint)
      (fun _ => True) := by
  subst hpeer
  have hconfig : peer.config.publicKey ∈ actual := hactual
  refine Triple.bind (applyConfig_writes hconfig endpoint fingerprint) fun _ => ?_
  refine Triple.bind (Triple.ofExcept (fun _ _ s hs => hs) fun _ _ => trivial) fun routes => ?_
  exact trackActivePolicy_triple (fun _ _ hs _ => hs) (fun _ _ _ hs _ => hs) fun _ _ _ _ => trivial

theorem applyDesiredPeers_writes {actual : List PublicKey} {peer : DesiredPeer}
    (hkeys : ∀ other p, wanted.lookup other = some p → p.publicKey = other)
    (hpeer : wanted.lookup key = some peer) (hactual : key ∈ actual)
    (endpoint : Option (Option SocketAddr)) (fingerprint : Option ℕ) :
    Triple (Has key endpoint fingerprint)
      (applyDesiredPeers b actual wanted now : Pass (Device K N BYTES) Unit)
      (fun _ s => s.client.endpointOf key =
        if fingerprint = some (b.fingerprint peer.config) then endpoint
        else some peer.config.endpoint)
      (fun _ => True) := by
  have hloop := Triple.forEach (E := fun _ => True)
    (I := fun done _ (s : PeerReconciler (Device K N BYTES)) =>
      if key ∈ done.keys then s.client.endpointOf key =
        if fingerprint = some (b.fingerprint peer.config) then endpoint else some peer.config.endpoint
      else Has key endpoint fingerprint s)
    (f := applyPeer b actual now) wanted.entries ?_
  · refine hloop.mono (fun s hs => ?_) (fun _ s hs => ?_) fun _ hs => hs
    · rw [if_neg (by simp)]
      exact hs
    · have hdone : key ∈ wanted.entries.keys := Bounded.mem_of_lookup hpeer
      rwa [if_pos hdone] at hs
  · rintro done ⟨other, p⟩ left hentries
    have hlookup : wanted.lookup other = some p :=
      AList.mem_lookup_iff.mpr (by rw [hentries]; simp)
    by_cases hk : other = key
    · subst hk
      cases hpeer.symm.trans hlookup
      have hfresh : other ∉ done.keys := by
        have hnodup := wanted.nodupKeys
        rw [hentries, List.nodupKeys_iff_pairwise, List.pairwise_append] at hnodup
        intro hmem
        obtain ⟨entry, hentry, hsame⟩ := List.mem_map.mp hmem
        exact hnodup.2.2 entry hentry ⟨other, peer⟩ (by simp) hsame
      refine (applyPeer_writes (hkeys _ _ hpeer) hactual endpoint fingerprint).mono (fun s hs => ?_)
        (fun _ s hs => ?_) fun _ hs => hs
      · rwa [if_neg hfresh] at hs
      · rw [if_pos (by simp [List.keys_append])]
        exact hs
    · have hpasses : PassesBy key
          (applyPeer b actual now ⟨other, p⟩ : Pass (Device K N BYTES) Unit) :=
        applyPeer_passesBy actual (hkeys _ _ hlookup) (Ne.symm hk)
      apply Triple.fromState
      intro s hs
      have hsame : key ∈ List.keys (done ++ [(⟨other, p⟩ : Σ _ : PublicKey, DesiredPeer)]) ↔
          key ∈ done.keys := by
        simp [List.keys_append, Ne.symm hk]
      refine (hpasses (s.client.endpointOf key) (s.appliedConfigFingerprints.lookup key)).mono
        (fun s' hs' => ?_) (fun _ s' hpost => ?_) fun _ h => h
      · subst hs'
        exact ⟨rfl, rfl⟩
      · split at hs
        · rename_i hdone
          rw [if_pos (hsame.mpr hdone)]
          exact hpost.endpoint.trans hs
        · rename_i hleft
          rw [if_neg (mt hsame.mp hleft)]
          exact ⟨hpost.endpoint.trans hs.endpoint, hpost.fingerprint.trans hs.fingerprint⟩

def renderedConfig (b : Build) (map : NetworkMap) (order : List PublicKey)
    (r : PeerReconciler (Device K N BYTES)) (key : PublicKey) : Option PeerConfig :=
  match desiredPeersFromMap b map r.rng with
  | (.error _, _) => none
  | (.ok desired, rng) => ((carriedForward b order r desired rng).1.lookup key).map DesiredPeer.config

/-- The reconciler has recorded that the device has the rendered configuration. -/
def AlreadyApplied (b : Build) (map : NetworkMap) (order : List PublicKey)
    (r : PeerReconciler (Device K N BYTES)) (key : PublicKey) : Prop :=
  ∃ config, renderedConfig b map order r key = some config ∧
    r.appliedConfigFingerprints.lookup key = some (b.fingerprint config)

theorem finishMap_desired :
    Triple (fun _ => True) (finishMap b map now wanted : Pass (Device K N BYTES) Bool)
      (fun _ s => s.desired = wanted) (fun _ => True) := by
  refine Triple.bind Triple.true fun actual => Triple.bind Triple.true fun _ => ?_
  refine Triple.bind Triple.true fun _ => Triple.bind Triple.true fun _ => ?_
  exact Triple.bind (Triple.modify (R := fun _ s => s.desired = wanted) fun _ _ => rfl) fun _ =>
    Triple.pure true fun s hs => hs

theorem finishMap_writes {r₁ : PeerReconciler (Device K N BYTES)} {peer : DesiredPeer}
    (hkeys : ∀ other p, wanted.lookup other = some p → p.publicKey = other)
    (hpeer : wanted.lookup key = some peer) (hbefore : key ∈ r₁.client.peers.peers) :
    Triple (· = r₁) (finishMap b map now wanted)
      (fun _ s => s.client.endpointOf key =
        if r₁.appliedConfigFingerprints.lookup key = some (b.fingerprint peer.config) then
          r₁.client.endpointOf key
        else some peer.config.endpoint)
      (fun _ => True) := by
  have hwanted := Bounded.mem_of_lookup hpeer
  refine Triple.bind (Q := fun actual s => Has key (r₁.client.endpointOf key)
    (r₁.appliedConfigFingerprints.lookup key) s ∧ key ∈ actual)
    (callClient_triple (fun s actual c hs hop => ?_) fun _ _ _ _ _ => trivial) fun actual => ?_
  · subst hs
    cases hop
    exact ⟨⟨rfl, rfl⟩, hbefore⟩
  apply Triple.assume
  intro hactual
  refine Triple.bind (Triple.forEach (I := fun _ _ => Has key _ _) actual fun done other left _ =>
    removeVanishedPeer_passesBy hwanted other _ _) fun _ => ?_
  refine Triple.bind (applyDesiredPeers_writes hkeys hpeer hactual _ _) fun _ => ?_
  refine Triple.bind (Triple.ofExcept (fun _ _ s hs => hs) fun _ _ => trivial) fun _ => ?_
  exact Triple.bind (Triple.modify (R := fun _ s => s.client.endpointOf key = _) fun s hs => hs)
    fun _ => Triple.pure true fun s hs => hs

/-- A map that renders a peer without an endpoint leaves the learned one alone if and only if the peer
is not written, or none was learned. -/
theorem reconcileNetworkMap_keeps_learned_iff {r r' : PeerReconciler (Device K N BYTES)}
    {config : PeerConfig} (hrun : reconcileNetworkMap b map now order r = .ok (.ok true, r'))
    (hbefore : key ∈ r.client.peers.peers)
    (hrendered : (r'.desired.lookup key).map DesiredPeer.config = some config)
    (hnone : config.endpoint = none) :
    r'.client.endpointOf key = r.client.endpointOf key ↔
      AlreadyApplied b map order r key ∨ r.client.endpointOf key = some none := by
  rcases reconcileNetworkMap_cases hrun with
    ⟨hstale, -⟩ | ⟨e, rng, -, herror, -⟩ | ⟨desired, rng, hdesired, hfinish⟩
  · cases hstale
  · cases herror
  · obtain ⟨-, hkeys, table, hshape⟩ := carriedForward_spec order hdesired
    have hwanted : r'.desired = (carriedForward b order r desired rng).1 :=
      finishMap_desired _ trivial _ _ hfinish
    rw [hwanted] at hrendered
    obtain ⟨peer, hpeer, rfl⟩ := Option.map_eq_some_iff.mp hrendered
    have hbefore' : key ∈ (carriedForward b order r desired rng).2.client.peers.peers := by
      rw [hshape]
      exact hbefore
    have hwrites := finishMap_writes hkeys hpeer hbefore' _ rfl _ _ hfinish
    have happlied : AlreadyApplied b map order r key ↔
        r.appliedConfigFingerprints.lookup key = some (b.fingerprint peer.config) := by
      simp [AlreadyApplied, renderedConfig, hdesired, hpeer]
    dsimp only at hwrites
    rw [hwrites, happlied, hshape, hnone]
    constructor
    · intro hsame
      split at hsame
      · rename_i hrecorded
        exact .inl hrecorded
      · exact .inr hsame.symm
    · intro hkept
      split
      · rfl
      · rename_i hchanged
        exact (hkept.resolve_left hchanged).symm

end Control.PeerReconciler

end Tendrilix

/-! ### A peer that is heard before its address in the tunnel changes -/

namespace Tendrilix.Sample

open Noise Control PeerReconciler

def quietMap (seconds : ℕ) (h : seconds < 1000) (host : ℕ) : NetMap.NetworkMap where
  updatedAt := instantAt seconds h
  peers := [
    { id := 5
      publicKey := (key 5).toKeyBytes
      tunnelIp := some (.v4 (BitVec.ofNat 32 (0x0a000200 + host)))
      isDirectory := false
      routes := [] }]

theorem one_lt_thousand : 1 < 1000 := by decide

def heardAnd (map : NetMap.NetworkMap)
    (p : PeerReconciler (Device Crypto.sample 8 8192) →
      PeerReconciler (Device Crypto.sample 8 8192) → Bool) : Bool :=
  okAnd (okAnd fun start =>
    okAnd (fun q => okAnd (fun heard =>
        okAnd (fun q' => decide (q'.1 = .ok true) && p { q.2 with client := heard.2 } q'.2)
          (reconcileNetworkMap build map 0 [] { q.2 with client := heard.2 }))
        (q.2.client.handleUdpPacket (initiationOf 5 1) (addr 99)))
      (Machine.run (step build) (new start [] ⟨fun _ => 0, 0⟩)
        [.networkMap (quietMap 1 one_lt_thousand 5) 0 []])) (device 1 [])

def Heard (r : PeerReconciler (Device Crypto.sample 8 8192)) : Prop :=
  ∃ start os before outputs, device 1 [] = .ok (.ok start) ∧
    Machine.run (step build) (new start [] ⟨fun _ => 0, 0⟩)
      [.networkMap (quietMap 1 one_lt_thousand 5) 0 []] = .ok (os, before) ∧
    before.client.handleUdpPacket (initiationOf 5 1) (addr 99) = .ok (outputs, r.client) ∧
    r = { before with client := r.client }

theorem exists_of_heardAnd {map : NetMap.NetworkMap}
    {p : PeerReconciler (Device Crypto.sample 8 8192) →
      PeerReconciler (Device Crypto.sample 8 8192) → Bool} (h : heardAnd map p = true) :
    ∃ r r', Heard r ∧ reconcileNetworkMap build map 0 [] r = .ok (.ok true, r') ∧ p r r' = true := by
  rw [heardAnd] at h
  obtain ⟨created, hnew, hcreated⟩ := exists_of_okAnd h
  obtain ⟨start, rfl, hstarted⟩ := exists_of_okAnd hcreated
  obtain ⟨⟨os, before⟩, hrun, hran⟩ := exists_of_okAnd hstarted
  obtain ⟨⟨outputs, d⟩, hheard, hlater⟩ := exists_of_okAnd hran
  obtain ⟨⟨o, r'⟩, happlied, hchecks⟩ := exists_of_okAnd hlater
  rw [Bool.and_eq_true, decide_eq_true_eq] at hchecks
  dsimp only at hchecks
  obtain ⟨rfl, hp⟩ := hchecks
  exact ⟨_, r', ⟨start, os, before, outputs, hnew, hrun, hheard, rfl⟩, happlied, hp⟩

/-- The peer gets another address in the tunnel and is no longer reachable. -/
theorem new_address_erases_endpoint :
    ∃ r r', Heard r ∧
      reconcileNetworkMap build (quietMap 2 (by decide) 6) 0 [] r = .ok (.ok true, r') ∧
      (r.desired.lookup (key 5)).map (·.config.endpoint) = some none ∧
      (r'.desired.lookup (key 5)).map (·.config.endpoint) = some none ∧
      r.client.endpointOf (key 5) = some (some (addr 99)) ∧
      r'.client.endpointOf (key 5) = some none := by
  have hrun : heardAnd (quietMap 2 (by decide) 6) (fun r r' =>
      decide ((r.desired.lookup (key 5)).map (·.config.endpoint) = some none) &&
      decide ((r'.desired.lookup (key 5)).map (·.config.endpoint) = some none) &&
      decide (r.client.endpointOf (key 5) = some (some (addr 99))) &&
      decide (r'.client.endpointOf (key 5) = some none)) = true := by
    decide +kernel
  obtain ⟨r, r', hheard, happlied, hchecks⟩ := exists_of_heardAnd hrun
  simp only [Bool.and_eq_true, decide_eq_true_eq] at hchecks
  obtain ⟨⟨⟨hold, hnew⟩, hlearned⟩, herased⟩ := hchecks
  exact ⟨r, r', hheard, happlied, hold, hnew, hlearned, herased⟩

theorem reconcileNetworkMap_keeps_learned_iff_unchanged :
    ∃ r r', Heard r ∧
      reconcileNetworkMap build (quietMap 2 (by decide) 5) 0 [] r = .ok (.ok true, r') ∧
      r.client.endpointOf (key 5) = some (some (addr 99)) ∧
      r'.client.endpointOf (key 5) = r.client.endpointOf (key 5) := by
  have hrun : heardAnd (quietMap 2 (by decide) 5) (fun r r' =>
      decide (key 5 ∈ r.client.peers.peers) &&
      decide (r.client.endpointOf (key 5) = some (some (addr 99))) &&
      decide ((r'.desired.lookup (key 5)).isSome ∧
        (r'.desired.lookup (key 5)).all fun peer => peer.config.endpoint = none) &&
      decide ((renderedConfig build (quietMap 2 (by decide) 5) [] r (key 5)).isSome ∧
        (renderedConfig build (quietMap 2 (by decide) 5) [] r (key 5)).all fun config =>
          r.appliedConfigFingerprints.lookup (key 5) = some (build.fingerprint config))) = true := by
    decide +kernel
  obtain ⟨r, r', hheard, happlied, hchecks⟩ := exists_of_heardAnd hrun
  simp only [Bool.and_eq_true, decide_eq_true_eq] at hchecks
  obtain ⟨⟨⟨hbefore, hlearned⟩, hdesired, hnone⟩, hrendered, hrecorded⟩ := hchecks
  obtain ⟨peer, hpeer⟩ := Option.isSome_iff_exists.mp hdesired
  obtain ⟨config, hconfig⟩ := Option.isSome_iff_exists.mp hrendered
  rw [hpeer] at hnone
  rw [hconfig] at hrecorded
  refine ⟨r, r', hheard, happlied, hlearned, ?_⟩
  refine (reconcileNetworkMap_keeps_learned_iff happlied hbefore
    (by rw [hpeer, Option.map_some] : _ = some peer.config) (by simpa using hnone)).mpr (.inl ?_)
  exact ⟨config, hconfig, by simpa using hrecorded⟩

end Tendrilix.Sample
