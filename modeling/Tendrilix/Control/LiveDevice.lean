import Tendrilix.Control.MapChange

/-!
# A device that handles traffic

The event loop serves the reconciler's commands between packets and ticks. None of these changes which
addresses the peers are allowed to use.
-/

namespace Tendrilix

open Noise Control

variable {K : Crypto} {N BYTES : ℕ}

theorem PeerState.SameBy.hasIp {s s' : PeerState K} (h : SameBy (·.allowedIps) s s') (key : PublicKey)
    (a : IpAddr) : s'.hasIp key a = s.hasIp key a := by
  have hkey := h key
  rw [PeerState.hasIp, PeerState.hasIp]
  cases hold : s.peerByKey key with
  | none =>
    rw [hold, Option.map_none, Option.map_eq_none_iff] at hkey
    rw [hkey]
  | some peer =>
    obtain ⟨peer', hpeer', hallowed⟩ := h.peer hold
    rw [hpeer', Option.any_some, Option.any_some, Peer.isAllowedIp, Peer.isAllowedIp, hallowed]

theorem PeerState.SameBy.allPrefixes {s s' : PeerState K} (h : SameBy (·.allowedIps) s s') :
    s'.allPrefixes = s.allPrefixes := by
  ext n
  rw [mem_allPrefixes, mem_allPrefixes]
  constructor
  · rintro ⟨key, peer, hpeer, hn⟩
    obtain ⟨peer', hpeer', hallowed⟩ := h.symm.peer hpeer
    exact ⟨key, peer', hpeer', hallowed ▸ hn⟩
  · rintro ⟨key, peer, hpeer, hn⟩
    obtain ⟨peer', hpeer', hallowed⟩ := h.peer hpeer
    exact ⟨key, peer', hpeer', hallowed ▸ hn⟩

namespace Device

variable {d d' : Device K N BYTES} {installed : PublicKey → Option PeerConfig}
  {outputs : List Output}

/-- What comes up between two commands. -/
abbrev Interlude := { e : Event // ∀ c, e ≠ .command c }

theorem Linked.of_same (h : d.Linked installed) (hready : d'.Ready)
    (hsame : PeerState.SameBy (·.allowedIps) d.peers d'.peers) : d'.Linked installed where
  ready := hready
  keys key := by
    have hkey := congrArg Option.isSome (hsame key)
    rw [Option.isSome_map, Option.isSome_map] at hkey
    rw [← h.keys, ← AList.lookup_isSome, ← AList.lookup_isSome]
    exact iff_of_eq (congrArg (· = true) hkey)
  prefixes key config hconfig := by
    obtain ⟨peer, hpeer, hnets⟩ := h.prefixes key config hconfig
    obtain ⟨peer', hpeer', hallowed⟩ := hsame.peer hpeer
    exact ⟨peer', hpeer', hallowed ▸ hnets⟩

theorem Move.sameIps (h : Move True d d') : PeerState.SameBy (·.allowedIps) d.peers d'.peers := by
  cases h with
  | read | count => exact fun _ => rfl
  | tunnel configured call => exact .setPeer _ configured rfl
  | endpoint configured addr allowed => exact .setPeer _ configured rfl

theorem step_sameIps {e : Event} (h : d.step e = .ok (outputs, d')) (hcommand : ∀ c, e ≠ .command c) :
    PeerState.SameBy (·.allowedIps) d.peers d'.peers := by
  rcases step_cases h with ⟨c, completion, he, -⟩ | ⟨order, -, rfl⟩ | hmoves
  · exact absurd he (hcommand c)
  · exact fun key => congrArg (Option.map _) (Bounded.lookup_reorder order d.peers.peers key)
  · exact hmoves.invariant (I := fun s => PeerState.SameBy (·.allowedIps) d.peers s.peers)
      (fun hmove hsame key => (hmove.sameIps key).trans (hsame key)) fun _ => rfl

theorem Move.ready (h : Move True d d') (hd : d.Ready) : d'.Ready := by
  have htables := h.tables hd.tables
  have hfits : nodesNeeded d'.peers.allPrefixes ≤ 65535 := h.sameIps.allPrefixes ▸ hd.fits
  cases h with
  | read | count | tunnel | endpoint => exact ⟨htables, hd.profile, hd.seeded, hfits⟩

theorem step_ready {e : Event} (h : d.step e = .ok (outputs, d')) (hd : d.Ready) : d'.Ready := by
  rcases step_cases h with ⟨c, completion, -, hcall, -⟩ | ⟨order, he, rfl⟩ | hmoves
  · exact handlePeerUpdate_ready hd hcall
  · have hsame := step_sameIps h fun c hc => by
      rw [he] at hc
      cases hc
    exact ⟨step_tables h hd.tables, hd.profile, hd.seeded, hsame.allPrefixes ▸ hd.fits⟩
  · exact hmoves.invariant Move.ready hd

theorem step_linked {e : Event} (h : d.step e = .ok (outputs, d')) (hcommand : ∀ c, e ≠ .command c)
    (hd : d.Linked installed) : d'.Linked installed :=
  hd.of_same (step_ready h hd.ready) (step_sameIps h hcommand)

/-! ### A device that starts with peers -/

def installedBy (configs : List PeerConfig) (installed : PublicKey → Option PeerConfig) :
    PublicKey → Option PeerConfig :=
  configs.foldl (fun installed config => record installed (.add config)) installed

theorem addPeers_linked {configs : List PeerConfig} {s : PeerState K} {g : IndexGenerator}
    {w : World K N BYTES} (hd : d.Linked installed)
    (h : addPeers .alloc d.privateKey d.stamper configs d.peers d.indexGenerator d.world =
      .ok (.ok (s, g, w))) :
    Linked { d with peers := s, indexGenerator := g, world := w } (installedBy configs installed) := by
  induction configs generalizing d installed with
  | nil =>
    cases h
    exact hd
  | cons config configs ih =>
    rw [addPeers] at h
    obtain ⟨⟨r, s₁, g₁, w₁⟩, hadd, h⟩ := bind_ok_iff.mp h
    cases r with
    | error e => cases h
    | ok u =>
      have hcommand : d.handlePeerUpdate (.add config) =
          .ok (.ok .none, { d with peers := s₁, indexGenerator := g₁, world := w₁ }) := by
        rw [handlePeerUpdate, hd.ready.profile, hadd]
        rfl
      exact ih (d := { d with peers := s₁, indexGenerator := g₁, world := w₁ })
        (handlePeerUpdate_linked hd hcommand) h

theorem addPeers_configured {configs : List PeerConfig} {privateKey : K.Secret} {stamper : TimeStamper}
    {s s' : PeerState K} {g g' : IndexGenerator} {w w' : World K N BYTES}
    (h : addPeers .alloc privateKey stamper configs s g w = .ok (.ok (s', g', w'))) :
    (∀ key peer, s.peerByKey key = some peer → s'.peerByKey key = some peer) ∧
      ∀ config ∈ configs, ∃ peer, s'.peerByKey config.publicKey = some peer ∧
        Peer.allowedIpsFromSlice .alloc config.allowedIps = .ok (.ok peer.allowedIps) := by
  induction configs generalizing s g w with
  | nil =>
    cases h
    exact ⟨fun _ _ hpeer => hpeer, fun config hconfig => by simp at hconfig⟩
  | cons config configs ih =>
    rw [addPeers] at h
    obtain ⟨⟨r, s₁, g₁, w₁⟩, hadd, h⟩ := bind_ok_iff.mp h
    cases r with
    | error e => cases h
    | ok u =>
      obtain ⟨hkept, hlater⟩ := ih h
      rcases addPeerToState_ok hadd with
        ⟨⟨e, he⟩, -⟩ | ⟨-, hnew, -, index, allowedIps, peersByIp, -, hips, -, rfl⟩
      · cases he
      · refine ⟨fun key peer hpeer => hkept key peer ?_, fun c hc => ?_⟩
        · have hne : key ≠ config.publicKey := by
            rintro rfl
            cases hnew.symm.trans hpeer
          exact (AList.lookup_insert_ne hne).trans hpeer
        · rcases List.mem_cons.mp hc with rfl | hc
          · exact ⟨_, hkept _ _ (AList.lookup_insert _), hips⟩
          · exact hlater c hc

theorem new_linked_peers {config : Config K} {resources : Resources} {draws : Draws} {clock : ℕ → ℕ}
    {secrets : ℕ → K.Secret} (h : new .alloc config resources draws clock secrets = .ok (.ok d)) :
    d.Linked (installedBy config.peers fun _ => none) := by
  have hready := new_ready h
  obtain ⟨r, hpeers, h⟩ := bind_ok_iff.mp h
  cases r with
  | error e => cases h
  | ok res =>
    obtain ⟨s, g, w⟩ := res
    cases h
    let d₀ : Device K N BYTES :=
      { profile := .alloc
        privateKey := config.privateKey
        rateLimiter := (RateLimiter.new K (K.publicKey config.privateKey) handshakeRateLimit
          draws.secretKey draws.nonceKey w).1
        peers := .new
        indexGenerator := resources.indexGenerator.initializeWith draws.seed draws.mask
        stamper := resources.stamper
        forwardingAuthorizer := config.forwardingAuthorizer
        world := { clock := clock, secrets := secrets, pool := .new N BYTES .alloc } }
    have hempty : new .alloc { config with peers := [] } resources draws clock secrets =
        .ok (.ok { d₀ with
          rateLimiter := (RateLimiter.new K (K.publicKey config.privateKey) handshakeRateLimit
            draws.secretKey draws.nonceKey d₀.world).1
          world := (RateLimiter.new K (K.publicKey config.privateKey) handshakeRateLimit
            draws.secretKey draws.nonceKey d₀.world).2 }) := rfl
    have hd₀ : d₀.Linked fun _ => none := by
      have hlinked := ManagedDevice.new_linked rfl hempty
      exact hlinked.of_peers ⟨⟨hlinked.ready.tables.routed, hlinked.ready.tables.indexed⟩, rfl,
        hlinked.ready.seeded, hlinked.ready.fits⟩ rfl
    exact (addPeers_linked hd₀ hpeers).of_peers hready rfl

end Device

namespace Control

open Device (Interlude Event Output)

namespace ManagedDevice

variable {m m' : ManagedDevice K N BYTES}

def handle (m : ManagedDevice K N BYTES) (e : Interlude) :
    Call (List Output × ManagedDevice K N BYTES) :=
  match h : m.device.step e.1 with
  | .error fault => .error fault
  | .ok (outputs, device) => .ok (outputs, ⟨device, m.installed, Device.step_linked h e.2 m.linked⟩)

theorem handle_installed {e : Interlude} {outputs : List Output} (h : m.handle e = .ok (outputs, m')) :
    m'.installed = m.installed := by
  unfold handle at h
  split at h
  · cases h
  · cases h
    rfl

theorem handle_sameIps {e : Interlude} {outputs : List Output} (h : m.handle e = .ok (outputs, m')) :
    PeerState.SameBy (·.allowedIps) m.device.peers m'.device.peers := by
  unfold handle at h
  split at h
  · cases h
  · rename_i hstep
    cases h
    exact Device.step_sameIps hstep e.2

theorem run_handle_sameIps {events : List Interlude} {outputs : List (List Output)}
    (h : Machine.run handle m events = .ok (outputs, m')) :
    PeerState.SameBy (·.allowedIps) m.device.peers m'.device.peers :=
  Machine.run_invariant (I := fun s => PeerState.SameBy (·.allowedIps) m.device.peers s.device.peers)
    (fun _ _ _ _ _ hs hstep key => (handle_sameIps hstep key).trans (hs key)) h fun _ => rfl

theorem run_handle_installed {events : List Interlude} {outputs : List (List Output)}
    (h : Machine.run handle m events = .ok (outputs, m')) : m'.installed = m.installed :=
  Machine.run_invariant (I := fun s => s.installed = m.installed)
    (fun _ _ _ _ _ hs hstep => (handle_installed hstep).trans hs) h rfl

end ManagedDevice

/-- `traffic` is what comes up before each of the next commands. -/
structure LiveDevice (K : Crypto) (N BYTES : ℕ) where
  managed : ManagedDevice K N BYTES
  traffic : List (List Interlude)

namespace LiveDevice

variable {l l' : LiveDevice K N BYTES}

def installed (l : LiveDevice K N BYTES) : PublicKey → Option PeerConfig := l.managed.installed

def afterTraffic {α : Type} (op : ManagedDevice K N BYTES → Call (α × ManagedDevice K N BYTES))
    (l : LiveDevice K N BYTES) : Call (α × LiveDevice K N BYTES) := do
  let (_, m) ← Machine.run ManagedDevice.handle l.managed (l.traffic.headD [])
  let (a, m) ← op m
  return (a, ⟨m, l.traffic.tail⟩)

instance : DeviceClient (LiveDevice K N BYTES) where
  addPeer config := afterTraffic (DeviceClient.addPeer config)
  updatePeer config := afterTraffic (DeviceClient.updatePeer config)
  removePeer publicKey := afterTraffic (DeviceClient.removePeer publicKey)
  getPeer publicKey := afterTraffic (DeviceClient.getPeer publicKey)
  listPeers := afterTraffic DeviceClient.listPeers

theorem afterTraffic_ok {α : Type} {op : ManagedDevice K N BYTES → Call (α × ManagedDevice K N BYTES)}
    {a : α} (h : afterTraffic op l = .ok (a, l')) :
    ∃ m, m.installed = l.installed ∧ op m = .ok (a, l'.managed) := by
  obtain ⟨⟨outputs, m⟩, htraffic, h⟩ := bind_ok_iff.mp h
  obtain ⟨⟨answer, m'⟩, hop, h⟩ := bind_ok_iff.mp h
  cases h
  exact ⟨m, ManagedDevice.run_handle_installed htraffic, hop⟩

theorem installed_ledger : Ledger (installed : LiveDevice K N BYTES → _) := by
  have hledger : Ledger (ManagedDevice.installed : ManagedDevice K N BYTES → _) :=
    ManagedDevice.installed_ledger
  exact
    { add_ok := fun config l l' h => by
        obtain ⟨m, hm, hop⟩ := afterTraffic_ok h
        exact hm ▸ hledger.add_ok config m l'.managed hop
      add_error := fun config l e l' h => by
        obtain ⟨m, hm, hop⟩ := afterTraffic_ok h
        exact hm ▸ hledger.add_error config m e l'.managed hop
      update_ok := fun config l l' h => by
        obtain ⟨m, hm, hop⟩ := afterTraffic_ok h
        exact hm ▸ hledger.update_ok config m l'.managed hop
      update_error := fun config l e l' h => by
        obtain ⟨m, hm, hop⟩ := afterTraffic_ok h
        exact hm ▸ hledger.update_error config m e l'.managed hop
      remove_ok := fun key l l' h => by
        obtain ⟨m, hm, hop⟩ := afterTraffic_ok h
        exact hm ▸ hledger.remove_ok key m l'.managed hop
      remove_error := fun key l e l' h => by
        obtain ⟨m, hm, hop⟩ := afterTraffic_ok h
        exact hm ▸ hledger.remove_error key m e l'.managed hop
      get := fun key l r l' h => by
        obtain ⟨m, hm, hop⟩ := afterTraffic_ok h
        exact hm ▸ hledger.get key m r l'.managed hop
      list := fun l r l' h => by
        obtain ⟨m, hm, hop⟩ := afterTraffic_ok h
        exact hm ▸ hledger.list m r l'.managed hop
      list_ok := fun l keys l' h => by
        obtain ⟨m, hm, hop⟩ := afterTraffic_ok h
        exact hm ▸ hledger.list_ok m keys l'.managed hop }

end LiveDevice

end Control

end Tendrilix
