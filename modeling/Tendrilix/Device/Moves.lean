import Mathlib.Logic.Relation
import Tendrilix.Device.Model
import Tendrilix.Noise.Effects

/-!
# What an event can do to a device

Whatever the handlers of packets and ticks do is a sequence of moves: the clock is read, the rate
limiter counts, a call is made on the tunnel of one configured peer, or the endpoint of a peer
changes. Invariants of whole runs are proved once for each move and once for each command. Only one
handler changes endpoints, so moves say whether they may.
-/

namespace Tendrilix

open Noise

variable {K : Crypto} {N BYTES : ℕ}

inductive TunnelCall : Tunn K → World K N BYTES → Tunn K → World K N BYTES → Prop
  | dropExpired {t t' : Tunn K} {w w' : World K N BYTES} {now dropped : ℕ}
      (call : t.dropExpiredQueuedPackets now w = .ok (dropped, t', w')) : TunnelCall t w t' w'
  | encapsulate {t t' : Tunn K} {w w' : World K N BYTES} {packetType : MessageType} {src : Bytes}
      {dstLen : ℕ} {r : TunnResult}
      (call : t.encapsulateWithType packetType src dstLen w = .ok (r, t', w')) :
      TunnelCall t w t' w'
  | flush {t t' : Tunn K} {w w' : World K N BYTES} {dstLen : ℕ} {r : TunnResult}
      (call : t.flushQueuedPacket dstLen w = .ok (r, t', w')) : TunnelCall t w t' w'
  | timers {t t' : Tunn K} {w w' : World K N BYTES} {dstLen : ℕ} {r : TunnResult}
      (call : t.updateTimers dstLen w = .ok (r, t', w')) : TunnelCall t w t' w'
  | receive {t t' : Tunn K} {w w' : World K N BYTES} {packet : Packet} {dstLen : ℕ}
      {r : TunnResult} (call : t.handleVerifiedPacket packet dstLen w = .ok (r, t', w')) :
      TunnelCall t w t' w'
  | receiveRelay {t t' : Tunn K} {w : World K N BYTES} {packet : Packet} {dstLen : ℕ}
      {r : Outcome Bytes} (call : t.handleVerifiedRelayPacket packet dstLen = .ok (r, t')) :
      TunnelCall t w t' w

theorem TunnelCall.path {t t' : Tunn K} {w w' : World K N BYTES} (h : TunnelCall t w t' w') :
    ∃ ls, Path t w ls t' w' := by
  cases h with
  | dropExpired call => exact ⟨_, Tunn.dropExpiredQueuedPackets_path call⟩
  | encapsulate call => exact ⟨_, Tunn.encapsulateWithType_path call⟩
  | flush call => exact ⟨_, Tunn.flushQueuedPacket_path call⟩
  | timers call => exact ⟨_, Tunn.updateTimers_path call⟩
  | receive call =>
    obtain ⟨ls, hpath, -⟩ := Tunn.handleVerifiedPacket_path call
    exact ⟨ls, hpath⟩
  | receiveRelay call =>
    obtain ⟨ls, hpath, -⟩ := Tunn.handleVerifiedRelayPacket_path (w := w) call
    exact ⟨ls, hpath⟩

namespace Device

inductive Move (roams : Prop) : Device K N BYTES → Device K N BYTES → Prop
  | read (d : Device K N BYTES) : Move roams d { d with world := d.world.now.2 }
  | count (d : Device K N BYTES) (rateLimiter : RateLimiter) (tickCount : ℕ) :
      Move roams d { d with rateLimiter := rateLimiter, tickCount := tickCount }
  | tunnel {d : Device K N BYTES} {publicKey : PublicKey} {peer : Peer K} {t : Tunn K}
      {w : World K N BYTES} (configured : d.peers.peerByKey publicKey = some peer)
      (call : TunnelCall peer.tunnel d.world t w) : Move roams d (d.setTunnel publicKey peer t w)
  | endpoint {d : Device K N BYTES} {publicKey : PublicKey} {peer : Peer K}
      (configured : d.peers.peerByKey publicKey = some peer) (addr : SocketAddr) (allowed : roams) :
      Move roams d (d.setEndpoint publicKey peer addr)

abbrev Moves (roams : Prop) : Device K N BYTES → Device K N BYTES → Prop :=
  Relation.ReflTransGen (Move roams)

variable {roams : Prop}

theorem Moves.invariant {I : Device K N BYTES → Prop}
    (hmove : ∀ {d d' : Device K N BYTES}, Move roams d d' → I d → I d') {d d' : Device K N BYTES}
    (h : Moves roams d d') (hinv : I d) : I d' := by
  induction h with
  | refl => exact hinv
  | tail _ hlast ih => exact hmove hlast ih

variable {d d' : Device K N BYTES} {outputs : List Output}

theorem Move.moves (h : Move roams d d') : Moves roams d d' := .single h

theorem setTunnel_peerByKey {publicKey : PublicKey} {peer : Peer K}
    (configured : d.peers.peerByKey publicKey = some peer) (t : Tunn K) (w : World K N BYTES) :
    (d.setTunnel publicKey peer t w).peers.peerByKey publicKey = some { peer with tunnel := t } :=
  Bounded.lookup_replace_self _ (Bounded.mem_of_lookup configured)

theorem dropExpiredLoop_moves {now dropped : ℕ} {keys : List PublicKey}
    (h : dropExpiredLoop now keys d = .ok (dropped, d')) : Moves roams d d' := by
  induction keys generalizing d dropped with
  | nil =>
    cases h
    exact .refl
  | cons key keys ih =>
    rw [dropExpiredLoop] at h
    cases hpeer : d.peers.peerByKey key with
    | none =>
      rw [hpeer] at h
      exact ih h
    | some peer =>
      rw [hpeer] at h
      obtain ⟨⟨n, t, w⟩, hcall, h⟩ := bind_ok_iff.mp h
      obtain ⟨⟨others, d₁⟩, hrest, h⟩ := bind_ok_iff.mp h
      cases h
      exact .head (.tunnel hpeer (.dropExpired hcall)) (ih hrest)

theorem dropExpiredPacketQueues_moves {dropped : ℕ}
    (h : d.dropExpiredPacketQueues = .ok (dropped, d')) : Moves roams d d' :=
  .head (.read d) (dropExpiredLoop_moves h)

theorem preparePacketToPeerViaRelay_moves {destinationKey relayKey : PublicKey} {packet : Bytes}
    {pending : Option PendingUdpSend}
    (h : d.preparePacketToPeerViaRelay destinationKey relayKey packet = .ok (pending, d')) :
    Moves roams d d' := by
  rw [preparePacketToPeerViaRelay] at h
  cases henv : Relay.buildEnvelope maxPacketSize destinationKey packet with
  | error e =>
    rw [henv] at h
    cases h
    exact .refl
  | ok relayPlaintext =>
    rw [henv] at h
    obtain ⟨⟨dropped, d₁⟩, hdrop, h⟩ := bind_ok_iff.mp h
    refine (dropExpiredPacketQueues_moves hdrop).trans ?_
    dsimp only at h
    cases hpeer : d₁.peers.peerByKey relayKey with
    | none =>
      rw [hpeer] at h
      cases h
      exact .refl
    | some relayPeer =>
      rw [hpeer] at h
      obtain ⟨⟨r, t, w⟩, hcall, h⟩ := bind_ok_iff.mp h
      have hmove : Move roams _ _ := .tunnel hpeer (.encapsulate hcall)
      cases r with
      | done | err | writeToNetwork =>
        cases h
        exact hmove.moves
      | writeToInterfaceV4 | writeToInterfaceV6 => cases h

theorem preparePacketToPeer_moves {destinationKey : PublicKey} {packet : Bytes}
    {pending : Option PendingUdpSend}
    (h : d.preparePacketToPeer destinationKey packet = .ok (pending, d')) : Moves roams d d' := by
  rw [preparePacketToPeer] at h
  split at h
  · cases h
    exact .refl
  split at h
  · exact preparePacketToPeerViaRelay_moves h
  · cases h
    exact .refl

theorem handleTunPacket_moves {src : Bytes} (h : d.handleTunPacket src = .ok (outputs, d')) :
    Moves roams d d' := by
  rw [handleTunPacket] at h
  split at h
  · cases h
    exact .refl
  obtain ⟨route, -, h⟩ := bind_ok_iff.mp h
  cases route with
  | none =>
    cases h
    exact .refl
  | some publicKey =>
    obtain ⟨⟨dropped, d₁⟩, hdrop, h⟩ := bind_ok_iff.mp h
    refine (dropExpiredPacketQueues_moves hdrop).trans ?_
    dsimp only at h
    cases hpeer : d₁.peers.peerByKey publicKey with
    | none =>
      rw [hpeer] at h
      cases h
      exact .refl
    | some peer =>
      rw [hpeer] at h
      obtain ⟨⟨r, t, w⟩, hcall, h⟩ := bind_ok_iff.mp h
      have hmove : Move roams _ _ := .tunnel hpeer (.encapsulate hcall)
      cases r with
      | done | err =>
        cases h
        exact hmove.moves
      | writeToNetwork packet =>
        obtain ⟨⟨pending, d₂⟩, hprepare, h⟩ := bind_ok_iff.mp h
        cases h
        exact .head hmove (preparePacketToPeer_moves hprepare)
      | writeToInterfaceV4 | writeToInterfaceV6 => cases h

theorem forwardEnvelope_moves {peerKey : PublicKey} {relayPlaintext : Bytes}
    (h : d.forwardEnvelope peerKey relayPlaintext = .ok (outputs, d')) : Moves roams d d' := by
  rw [forwardEnvelope] at h
  split at h
  · cases h
    exact .refl
  split at h
  · cases h
    exact .refl
  dsimp only at h
  split at h
  · cases h
    exact .refl
  split at h
  · obtain ⟨⟨dropped, d₁⟩, hdrop, h⟩ := bind_ok_iff.mp h
    refine (dropExpiredPacketQueues_moves hdrop).trans ?_
    dsimp only at h
    split at h
    · cases h
      exact .refl
    · rename_i relayPeer hpeer
      split at h
      · cases h
        exact .refl
      obtain ⟨⟨r, t, w⟩, hcall, h⟩ := bind_ok_iff.mp h
      have hmove : Move roams _ _ := .tunnel hpeer (.encapsulate hcall)
      cases r with
      | done | err | writeToNetwork =>
        cases h
        exact hmove.moves
      | writeToInterfaceV4 | writeToInterfaceV6 => cases h
  · cases h
    exact .refl
  · cases h
    exact .refl

theorem flushQueuedPackets_moves {peerKey : PublicKey} {fuel : ℕ}
    (h : flushQueuedPackets peerKey fuel d = .ok (outputs, d')) : Moves roams d d' := by
  induction fuel generalizing d outputs with
  | zero =>
    cases h
    exact .refl
  | succ fuel ih =>
    rw [flushQueuedPackets] at h
    split at h
    · cases h
      exact .refl
    · rename_i peer hpeer
      obtain ⟨⟨r, t, w⟩, hcall, h⟩ := bind_ok_iff.mp h
      have hmove : Move roams _ _ := .tunnel hpeer (.flush hcall)
      cases r with
      | writeToNetwork packet =>
        obtain ⟨⟨pending, d₁⟩, hprepare, h⟩ := bind_ok_iff.mp h
        obtain ⟨⟨rest, d₂⟩, hrest, h⟩ := bind_ok_iff.mp h
        cases h
        exact .head hmove ((preparePacketToPeer_moves hprepare).trans (ih hrest))
      | done | err | writeToInterfaceV4 | writeToInterfaceV6 =>
        cases h
        exact hmove.moves

theorem finishUdpPacket_moves {peerKey : PublicKey} {peer : Peer K} {r : TunnResult}
    (h : d.finishUdpPacket peerKey peer r = .ok (outputs, d')) : Moves roams d d' := by
  cases r with
  | done | err =>
    cases h
    exact .refl
  | writeToNetwork packet =>
    obtain ⟨⟨pending, d₁⟩, hprepare, h⟩ := bind_ok_iff.mp h
    obtain ⟨⟨rest, d₂⟩, hrest, h⟩ := bind_ok_iff.mp h
    cases h
    exact (preparePacketToPeer_moves hprepare).trans (flushQueuedPackets_moves hrest)
  | writeToInterfaceV4 | writeToInterfaceV6 =>
    obtain ⟨allowed, -, h⟩ := bind_ok_iff.mp h
    cases h
    exact .refl

theorem handleAttributedPacket_moves {peerKey : PublicKey} {srcAddr : SocketAddr} {packet : Packet}
    (h : d.handleAttributedPacket peerKey srcAddr packet = .ok (outputs, d')) : Moves True d d' := by
  rw [handleAttributedPacket] at h
  split at h
  · cases h
    exact .refl
  rename_i peer hpeer
  split at h
  · obtain ⟨⟨r, t⟩, hcall, h⟩ := bind_ok_iff.mp h
    have hmove : Move True _ _ := .tunnel hpeer (.receiveRelay (w := d.world) hcall)
    cases r with
    | error e =>
      cases h
      exact hmove.moves
    | ok relayPlaintext => exact .head hmove (forwardEnvelope_moves h)
  · obtain ⟨⟨r, t, w⟩, hcall, h⟩ := bind_ok_iff.mp h
    refine .head (.tunnel hpeer (.receive hcall)) ?_
    dsimp only at h
    split at h
    · exact .head (.endpoint (setTunnel_peerByKey hpeer t w) srcAddr trivial) (finishUdpPacket_moves h)
    · exact finishUdpPacket_moves h

theorem verifyPacket_moves (d : Device K N BYTES) (src : Option IpAddr) (datagram : Bytes)
    (dstLen : ℕ) :
    Moves roams d { d with
      rateLimiter := (d.rateLimiter.verifyPacket src datagram dstLen d.world).2.1
      world := (d.rateLimiter.verifyPacket src datagram dstLen d.world).2.2 } := by
  rcases d.rateLimiter.verifyPacket_world src datagram dstLen d.world with hworld | hworld
  · rw [hworld]
    exact (Move.count d _ d.tickCount).moves
  · rw [hworld]
    exact .head (.read d) (Move.count { d with world := d.world.now.2 } _ d.tickCount).moves

theorem handleUdpPacket_moves {datagram : Bytes} {srcAddr : SocketAddr}
    (h : d.handleUdpPacket datagram srcAddr = .ok (outputs, d')) : Moves True d d' := by
  rw [handleUdpPacket] at h
  refine (verifyPacket_moves d (some srcAddr.ip) datagram maxPacketSize).trans ?_
  dsimp only at h
  split at h
  · cases h
    exact .refl
  · cases h
    exact .refl
  · obtain ⟨peerKey, -, h⟩ := bind_ok_iff.mp h
    cases peerKey with
    | none =>
      cases h
      exact .refl
    | some peerKey =>
      obtain ⟨⟨dropped, d₁⟩, hdrop, h⟩ := bind_ok_iff.mp h
      exact (dropExpiredPacketQueues_moves hdrop).trans (handleAttributedPacket_moves h)

theorem timerLoop_moves {keys : List PublicKey} (h : timerLoop keys d = .ok (outputs, d')) :
    Moves roams d d' := by
  induction keys generalizing d outputs with
  | nil =>
    cases h
    exact .refl
  | cons key keys ih =>
    obtain ⟨⟨dropped, d₁⟩, hdrop, h⟩ := bind_ok_iff.mp h
    refine (dropExpiredPacketQueues_moves hdrop).trans ?_
    dsimp only at h
    split at h
    · exact ih h
    · rename_i peer hpeer
      obtain ⟨⟨r, t, w⟩, hcall, h⟩ := bind_ok_iff.mp h
      refine .head (.tunnel hpeer (.timers hcall)) ?_
      cases r with
      | done | err => exact ih h
      | writeToNetwork packet =>
        obtain ⟨⟨pending, d₂⟩, hprepare, h⟩ := bind_ok_iff.mp h
        obtain ⟨⟨rest, d₃⟩, hrest, h⟩ := bind_ok_iff.mp h
        cases h
        exact (preparePacketToPeer_moves hprepare).trans (ih hrest)
      | writeToInterfaceV4 | writeToInterfaceV6 => cases h

theorem tick_moves {order : List PublicKey} (h : d.tick order = .ok (outputs, d')) : Moves roams d d' := by
  obtain ⟨⟨sent, d₁⟩, hticks, h⟩ := bind_ok_iff.mp h
  refine (timerLoop_moves hticks).trans ?_
  dsimp only at h
  split at h
  · cases h
    refine .head (.read d₁) (Move.moves ?_)
    rw [RateLimiter.resetCount_world]
    exact .count { d₁ with world := d₁.world.now.2 } _ _
  · cases h
    exact (Move.count d₁ d₁.rateLimiter _).moves

theorem step_cases {e : Event} (h : d.step e = .ok (outputs, d')) :
    (∃ c completion, e = .command c ∧ d.handlePeerUpdate c = .ok (completion, d') ∧
      outputs = [.completion completion]) ∨
    (∃ order, e = .reorder order ∧
      d' = { d with peers := { d.peers with peers := Bounded.reorder order d.peers.peers } }) ∨
    Moves True d d' := by
  cases e with
  | tunPacket packet fits => exact .inr (.inr (handleTunPacket_moves h))
  | udpPacket datagram fits src => exact .inr (.inr (handleUdpPacket_moves h))
  | tick order => exact .inr (.inr (tick_moves h))
  | command c =>
    obtain ⟨⟨completion, d₁⟩, hcall, h⟩ := bind_ok_iff.mp h
    cases h
    exact .inl ⟨c, completion, rfl, hcall, rfl⟩
  | reorder order =>
    cases h
    exact .inr (.inl ⟨order, rfl, rfl⟩)

end Device

end Tendrilix
