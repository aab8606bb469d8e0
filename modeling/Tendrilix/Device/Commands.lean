import Tendrilix.Device.Moves
import Tendrilix.Device.Routing

/-!
# What a command can do to the peer table

A command that fails leaves the table as it was. One that adds or updates a peer swaps in the
rebuilt routes at the same time.
-/

namespace Tendrilix

open Noise

variable {K : Crypto} {N BYTES : ℕ}

namespace PeerState

def All (P : PublicKey → Peer K → Prop) (s : PeerState K) : Prop :=
  ∀ key peer, s.peerByKey key = some peer → P key peer

section All

variable {P : PublicKey → Peer K → Prop} {s : PeerState K} {key : PublicKey} {peer : Peer K}

theorem All.new : (new : PeerState K).All P := fun _ _ h => nomatch h

theorem All.setPeer (h : s.All P) (hmem : key ∈ s.peers) (hpeer : P key peer) :
    (s.setPeer key peer).All P := by
  intro k p hp
  rcases (Bounded.lookup_replace_eq_some_iff hmem).mp hp with ⟨rfl, rfl⟩ | ⟨-, hp⟩
  · exact hpeer
  · exact h k p hp

theorem All.insert (h : s.All P) (hpeer : P key peer) (peersByIp : AllowedIPs PublicKey)
    (peersByIdx : Bounded.Map ℕ PublicKey) : All P ⟨s.peers.insert key peer, peersByIp, peersByIdx⟩ := by
  intro k p hp
  rcases Bounded.lookup_insert_eq_some_iff.mp hp with ⟨rfl, rfl⟩ | ⟨-, hp⟩
  · exact hpeer
  · exact h k p hp

theorem All.erase (h : s.All P) (key : PublicKey) (peersByIp : AllowedIPs PublicKey)
    (peersByIdx : Bounded.Map ℕ PublicKey) : All P ⟨s.peers.erase key, peersByIp, peersByIdx⟩ :=
  fun k p hp => h k p (Bounded.lookup_erase_eq_some_iff.mp hp).2

theorem All.reorder (h : s.All P) (order : List PublicKey) :
    All P { s with peers := Bounded.reorder order s.peers } :=
  fun k p hp => h k p ((Bounded.lookup_reorder order s.peers k).symm.trans hp)

end All

theorem insertPeerStorage_cases (profile : Profile) {s : PeerState K} {publicKey : PublicKey}
    (index : ℕ) (peer : Peer K) (hnew : s.peerByKey publicKey = none) :
    s.insertPeerStorage profile publicKey index peer = (.error .capacity, s) ∨
    s.insertPeerStorage profile publicKey index peer = (.ok (), { s with
      peers := s.peers.insert publicKey peer
      peersByIdx := s.peersByIdx.insert index publicKey }) := by
  rw [insertPeerStorage]
  split
  · exact .inl rfl
  · rename_i peers hpeers
    obtain rfl := Bounded.tryInsertEntry_eq_some hpeers
    split
    · rw [Bounded.erase_insert peer hnew]
      exact .inl rfl
    · rename_i peersByIdx hidx
      obtain rfl := Bounded.tryInsertEntry_eq_some hidx
      exact .inr rfl

end PeerState

namespace Device

def newPeer (config : PeerConfig) (privateKey : K.Secret) (index : ℕ) (stamper : TimeStamper)
    (allowedIps : AllowedIPs Unit) (w : World K N BYTES) : Peer K where
  tunnel := (Tunn.new privateKey config.publicKey.bytes config.keepalive index stamper w).1
  index := index
  endpoint := config.endpoint
  relay := config.relay
  allowedIps := allowedIps

def updatedPeer (config : PeerConfig) (allowedIps : AllowedIPs Unit) (peer : Peer K) : Peer K :=
  { peer with
    endpoint := config.endpoint
    relay := config.relay
    tunnel := peer.tunnel.setPersistentKeepalive config.keepalive
    allowedIps := allowedIps }

variable {profile : Profile} {s s' : PeerState K} {config : PeerConfig} {r : Except Error Unit}

theorem addPeerToState_ok {privateKey : K.Secret} {g g' : IndexGenerator} {stamper : TimeStamper}
    {w w' : World K N BYTES}
    (h : addPeerToState profile s config privateKey g stamper w = .ok (r, s', g', w')) :
    ((∃ e, r = .error e) ∧ s' = s ∧ (g' = g ∧ w' = w ∨
      (∃ index, g.newIndex = .ok (index, g')) ∧ w' = w.now.2)) ∨
    (r = .ok () ∧ s.peerByKey config.publicKey = none ∧ w' = w.now.2 ∧
      ∃ index allowedIps peersByIp, g.newIndex = .ok (index, g') ∧
        Peer.allowedIpsFromSlice profile config.allowedIps = .ok (.ok allowedIps) ∧
        s.rebuiltPeersByIpWith profile config.publicKey allowedIps = .ok (.ok peersByIp) ∧
        s' =
          { peers := s.peers.insert config.publicKey
              (newPeer config privateKey index stamper allowedIps w)
            peersByIp := peersByIp
            peersByIdx := s.peersByIdx.insert index config.publicKey }) := by
  rw [addPeerToState] at h
  split at h
  · cases h
    exact .inl ⟨⟨_, rfl⟩, rfl, .inl ⟨rfl, rfl⟩⟩
  rename_i hnew
  rw [Bool.not_eq_true, Option.isSome_eq_false_iff, Option.isNone_iff_eq_none] at hnew
  obtain ⟨⟨index, g₁⟩, hindex, h⟩ := bind_ok_iff.mp h
  have hw : (Tunn.new privateKey config.publicKey.bytes config.keepalive index stamper w).2 =
      w.now.2 := rfl
  dsimp only at h
  rw [hw, Peer.new] at h
  cases hips : Peer.allowedIpsFromSlice profile config.allowedIps with
  | error f =>
    rw [hips] at h
    cases h
  | ok ips =>
    rw [hips] at h
    cases ips with
    | error e =>
      cases h
      exact .inl ⟨⟨_, rfl⟩, rfl, .inr ⟨⟨index, hindex⟩, rfl⟩⟩
    | ok allowedIps =>
      dsimp only [ok_bind, pure_eq_ok] at h
      obtain ⟨rebuilt, hrebuilt, h⟩ := bind_ok_iff.mp h
      cases rebuilt with
      | error e =>
        cases h
        exact .inl ⟨⟨_, rfl⟩, rfl, .inr ⟨⟨index, hindex⟩, rfl⟩⟩
      | ok peersByIp =>
        have hcases := PeerState.insertPeerStorage_cases profile index
          (newPeer config privateKey index stamper allowedIps w) hnew
        dsimp only [newPeer] at hcases h
        rcases hcases with hstored | hstored
        · rw [hstored] at h
          cases h
          exact .inl ⟨⟨_, rfl⟩, rfl, .inr ⟨⟨index, hindex⟩, rfl⟩⟩
        · rw [hstored] at h
          cases h
          exact .inr ⟨rfl, hnew, rfl, index, allowedIps, peersByIp, hindex, rfl, hrebuilt, rfl⟩

theorem addPeerToState_seeded {privateKey : K.Secret} {g g' : IndexGenerator} {stamper : TimeStamper}
    {w w' : World K N BYTES} (hg : g.lfsr ≠ 0)
    (h : addPeerToState profile s config privateKey g stamper w = .ok (r, s', g', w')) :
    g'.lfsr ≠ 0 := by
  rcases addPeerToState_ok h with
    ⟨-, -, ⟨rfl, -⟩ | ⟨⟨index, hnext⟩, -⟩⟩ | ⟨-, -, -, index, -, -, hnext, -⟩
  · exact hg
  · exact IndexGenerator.newIndex_seeded hnext
  · exact IndexGenerator.newIndex_seeded hnext

theorem handlePeerUpdate_add_exhausted {d : Device K N BYTES} (hseeded : d.indexGenerator.lfsr ≠ 0)
    (hnew : d.peers.peerByKey config.publicKey = none) (hindexes : d.indexGenerator.remaining = 0) :
    d.handlePeerUpdate (.add config) = .error .indexesExhausted := by
  have hindex : d.indexGenerator.newIndex = .error .indexesExhausted := by
    rw [IndexGenerator.newIndex, if_neg hseeded, if_pos hindexes]
  simp only [handlePeerUpdate, addPeerToState, hnew, hindex, Option.isSome_none]
  rfl

theorem updatePeerInState_ok (h : updatePeerInState profile s config = .ok (r, s')) :
    ((∃ e, r = .error e) ∧ s' = s) ∨
    (r = .ok () ∧ ∃ peer allowedIps peersByIp, s.peerByKey config.publicKey = some peer ∧
      Peer.allowedIpsFromSlice profile config.allowedIps = .ok (.ok allowedIps) ∧
      s.rebuiltPeersByIpWith profile config.publicKey allowedIps = .ok (.ok peersByIp) ∧
      s' = { s with
        peers := s.peers.replace config.publicKey (updatedPeer config allowedIps peer)
        peersByIp := peersByIp }) := by
  rw [updatePeerInState] at h
  split at h
  · cases h
    exact .inl ⟨⟨_, rfl⟩, rfl⟩
  rename_i peer hpeer
  obtain ⟨ips, hips, h⟩ := bind_ok_iff.mp h
  cases ips with
  | error e =>
    cases h
    exact .inl ⟨⟨_, rfl⟩, rfl⟩
  | ok allowedIps =>
    obtain ⟨rebuilt, hrebuilt, h⟩ := bind_ok_iff.mp h
    cases rebuilt with
    | error e =>
      cases h
      exact .inl ⟨⟨_, rfl⟩, rfl⟩
    | ok peersByIp =>
      cases h
      exact .inr ⟨rfl, peer, allowedIps, peersByIp, hpeer, hips, hrebuilt, rfl⟩

theorem removePeerFromState_eq (s : PeerState K) (publicKey : PublicKey) :
    removePeerFromState s publicKey =
      match s.peerByKey publicKey with
      | none => s
      | some peer =>
        { peers := s.peers.erase publicKey
          peersByIp := s.peersByIp.remove (· = publicKey)
          peersByIdx := s.peersByIdx.erase peer.index } := by
  unfold removePeerFromState PeerState.removePeerStorage PeerState.peerByKey
  cases hpeer : s.peers.lookup publicKey with
  | none => rfl
  | some peer => rfl

inductive CommandAction (d : Device K N BYTES) :
    Command → CommandCompletion → Device K N BYTES → Prop
  | none : CommandAction d .none (.ok .none) d
  | add {config : PeerConfig} {r : Except Error Unit} {peers : PeerState K} {g : IndexGenerator}
      {w : World K N BYTES}
      (call : addPeerToState d.profile d.peers config d.privateKey d.indexGenerator d.stamper
        d.world = .ok (r, peers, g, w)) :
      CommandAction d (.add config) (r.map fun _ => .none)
        { d with
          peers := peers
          indexGenerator := g
          world := w }
  | update {config : PeerConfig} {r : Except Error Unit} {peers : PeerState K}
      (call : updatePeerInState d.profile d.peers config = .ok (r, peers)) :
      CommandAction d (.update config) (r.map fun _ => .none) { d with peers := peers }
  | remove {publicKey : PublicKey} :
      CommandAction d (.remove publicKey) (.ok .none)
        { d with peers := removePeerFromState d.peers publicKey }
  | unknown {publicKey : PublicKey} : CommandAction d (.get publicKey) (.error .peerNotFound) d
  | get {publicKey : PublicKey} {peer : Peer K} {stats : Stats} {w : World K N BYTES}
      (call : peer.tunnel.stats d.world = .ok (stats, w)) :
      CommandAction d (.get publicKey) (.ok (.peerInfo ⟨peer.endpoint, stats⟩))
        { d with world := w }
  | list : CommandAction d .list (.ok (.peerKeys d.peers.peerKeys)) d

theorem handlePeerUpdate_cases {d d' : Device K N BYTES} {c : Command}
    {completion : CommandCompletion} (h : d.handlePeerUpdate c = .ok (completion, d')) :
    CommandAction d c completion d' := by
  cases c with
  | none =>
    cases h
    exact .none
  | add config =>
    obtain ⟨⟨r, peers, g, w⟩, hcall, h⟩ := bind_ok_iff.mp h
    cases h
    exact .add hcall
  | update config =>
    obtain ⟨⟨r, peers⟩, hcall, h⟩ := bind_ok_iff.mp h
    cases h
    exact .update hcall
  | remove publicKey =>
    cases h
    exact .remove
  | get publicKey =>
    rw [handlePeerUpdate] at h
    split at h
    · cases h
      exact .unknown
    · obtain ⟨⟨stats, w⟩, hcall, h⟩ := bind_ok_iff.mp h
      cases h
      exact .get hcall
  | list =>
    cases h
    exact .list

/-! ### The peers that a device starts with -/

section New

variable {I : PeerState K → IndexGenerator → World K N BYTES → Prop} {privateKey : K.Secret}
  {stamper : TimeStamper}

theorem addPeers_invariant
    (hadd : ∀ {config : PeerConfig} {s s' : PeerState K} {g g' : IndexGenerator}
      {w w' : World K N BYTES}, addPeerToState profile s config privateKey g stamper w =
        .ok (.ok (), s', g', w') → I s g w → I s' g' w')
    {configs : List PeerConfig} {g g' : IndexGenerator} {w w' : World K N BYTES}
    (h : addPeers profile privateKey stamper configs s g w = .ok (.ok (s', g', w')))
    (hinv : I s g w) : I s' g' w' := by
  induction configs generalizing s g w with
  | nil =>
    cases h
    exact hinv
  | cons config configs ih =>
    obtain ⟨⟨r, s₁, g₁, w₁⟩, hcall, h⟩ := bind_ok_iff.mp h
    cases r with
    | error e => cases h
    | ok u => exact ih h (hadd hcall hinv)

theorem new_invariant {config : Config K} {resources : Resources} {draws : Draws}
    {clock : ℕ → ℕ} {secrets : ℕ → K.Secret} {d : Device K N BYTES}
    (h : new profile config resources draws clock secrets = .ok (.ok d))
    (hadd : ∀ {peer : PeerConfig} {s s' : PeerState K} {g g' : IndexGenerator}
      {w w' : World K N BYTES}, addPeerToState profile s peer config.privateKey g
        resources.stamper w = .ok (.ok (), s', g', w') → I s g w → I s' g' w')
    (hstart : I .new (resources.indexGenerator.initializeWith draws.seed draws.mask)
      { clock := clock
        secrets := secrets
        pool := .new N BYTES profile }) :
    d.profile = profile ∧ ∃ w : World K N BYTES, d.world.pool = w.pool ∧
      I d.peers d.indexGenerator w := by
  obtain ⟨r, hpeers, h⟩ := bind_ok_iff.mp h
  cases r with
  | error e => cases h
  | ok res =>
    obtain ⟨s, g, w⟩ := res
    cases h
    exact ⟨rfl, w, rfl, addPeers_invariant hadd hpeers hstart⟩

end New

/-! ### Properties of every configured peer -/

section All

variable {P : PublicKey → Peer K → Prop} {d d' : Device K N BYTES}

structure Inherited (profile : Profile) (N BYTES : ℕ) (P : PublicKey → Peer K → Prop) : Prop where
  new : ∀ (config : PeerConfig) (privateKey : K.Secret) (stamper : TimeStamper)
    (allowedIps : AllowedIPs Unit) (w : World K N BYTES) (g g' : IndexGenerator) (index : ℕ),
      Peer.allowedIpsFromSlice profile config.allowedIps = .ok (.ok allowedIps) →
      g.newIndex = .ok (index, g') →
        P config.publicKey (newPeer config privateKey index stamper allowedIps w)
  update : ∀ (config : PeerConfig) (allowedIps : AllowedIPs Unit) (peer : Peer K),
    Peer.allowedIpsFromSlice profile config.allowedIps = .ok (.ok allowedIps) →
      P config.publicKey peer → P config.publicKey (updatedPeer config allowedIps peer)

theorem addPeerToState_all (hP : Inherited profile N BYTES P) {privateKey : K.Secret}
    {g g' : IndexGenerator} {stamper : TimeStamper} {w w' : World K N BYTES}
    (h : addPeerToState profile s config privateKey g stamper w = .ok (r, s', g', w'))
    (hinv : s.All P) : s'.All P := by
  rcases addPeerToState_ok h with
    ⟨-, rfl, -⟩ | ⟨-, -, -, index, allowedIps, peersByIp, hnext, hslice, -, rfl⟩
  · exact hinv
  · exact hinv.insert (hP.new config privateKey stamper allowedIps w g g' index hslice hnext) _ _

theorem handlePeerUpdate_all (hP : Inherited d.profile N BYTES P) {c : Command}
    {completion : CommandCompletion} (h : d.handlePeerUpdate c = .ok (completion, d'))
    (hinv : d.peers.All P) : d'.peers.All P := by
  cases handlePeerUpdate_cases h with
  | none | unknown | get | list => exact hinv
  | add call => exact addPeerToState_all hP call hinv
  | update call =>
    rcases updatePeerInState_ok call with
      ⟨-, rfl⟩ | ⟨-, peer, allowedIps, peersByIp, hpeer, hslice, -, rfl⟩
    · exact hinv
    · exact hinv.setPeer (Bounded.mem_of_lookup hpeer)
        (hP.update _ allowedIps peer hslice (hinv _ peer hpeer))
  | @remove publicKey =>
    dsimp only
    rw [removePeerFromState_eq]
    split
    · exact hinv
    · exact hinv.erase publicKey _ _

theorem step_all (hP : Inherited d.profile N BYTES P)
    (hmove : ∀ {d d' : Device K N BYTES}, Move True d d' → d.peers.All P → d'.peers.All P) {e : Event}
    {outputs : List Output} (h : d.step e = .ok (outputs, d')) (hinv : d.peers.All P) :
    d'.peers.All P := by
  rcases step_cases h with ⟨c, completion, -, hcall, -⟩ | ⟨order, -, rfl⟩ | hmoves
  · exact handlePeerUpdate_all hP hcall hinv
  · exact hinv.reorder order
  · exact hmoves.invariant (I := fun d => d.peers.All P) hmove hinv

theorem new_all (hP : Inherited profile N BYTES P) {config : Config K} {resources : Resources}
    {draws : Draws} {clock : ℕ → ℕ} {secrets : ℕ → K.Secret}
    (h : new profile config resources draws clock secrets = .ok (.ok d)) : d.peers.All P := by
  obtain ⟨-, -, -, hall⟩ := new_invariant (I := fun s _ _ => s.All P) h
    (addPeerToState_all hP) PeerState.All.new
  exact hall

end All

end Device

end Tendrilix
