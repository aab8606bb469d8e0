import Tendrilix.Device.Pending
import Tendrilix.Device.Roaming
import Tendrilix.Noise.RelaySpec
import Tendrilix.Noise.Written

/-!
# Envelopes that wait for a relay

An envelope that finds no session with the relay waits in the relay's queue. A flush then sends it
like any packet for that peer, and so through a relay of the relay's own, if it has one.
-/

namespace Tendrilix

open IntrusiveQueue Noise

variable {K : Crypto} {N BYTES : ℕ}

namespace Device

variable {d d' d₀ d₁ : Device K N BYTES} {items : PublicKey → List (ℕ × QueuedPacket)}
  {key : PublicKey} {peer : Peer K}

def waiting (d : Device K N BYTES) (key : PublicKey) : List QueuedPacket :=
  readBack d.world.pool.view maxPendingPackets (d.queueOf key).head

theorem Pooled.waiting (h : d.Pooled items) (key : PublicKey) :
    d.waiting key = (items key).map Prod.snd :=
  (h.family.holds key).readBack (h.bounded key)

theorem preparePacketToPeerViaRelay_longer {destination relay : PublicKey} {packet sent : Bytes}
    {addr : SocketAddr}
    (h : d.preparePacketToPeerViaRelay destination relay packet = .ok (some (sent, addr), d')) :
    AnnouncesHandshake sent ∨ packet.length + envelopeHeaderSize + 32 ≤ sent.length := by
  rw [preparePacketToPeerViaRelay] at h
  split at h
  · cases h
  rename_i envelope henvelope
  obtain ⟨⟨dropped, d₁⟩, -, h⟩ := bind_ok_iff.mp h
  dsimp only at h
  split at h
  · cases h
  obtain ⟨⟨r, t, w⟩, hcall, h⟩ := bind_ok_iff.mp h
  cases r with
  | writeToNetwork written =>
    obtain ⟨addr', -, hsent⟩ := Option.map_eq_some_iff.mp (congrArg Prod.fst (Except.ok.inj h))
    cases hsent
    rcases Tunn.encapsulateWithType_writes hcall _ rfl with
      hhandshake | ⟨s, packetType, src, ⟨rfl, rfl⟩, -, -, rfl⟩
    · exact .inl hhandshake.announces
    · have hlength := Relay.length_buildEnvelope henvelope
      have hpadded := Session.le_paddedLen src.length
      rw [Session.length_datagram]
      exact .inr (by omega)
  | done | err | writeToInterfaceV4 | writeToInterfaceV6 => cases h

theorem encapsulateRelay_eq {t : Tunn K} {s : Session} {envelope : Bytes} (w : World K N BYTES)
    (hs : t.currentSession = some s) (hcounter : s.sendingKeyCounter < rejectAfterMessages)
    (hroom : 32 + Session.paddedLen envelope.length ≤ maxPacketSize) :
    ∃ t' w', t.encapsulateRelay envelope maxPacketSize w =
      .ok (.writeToNetwork (s.datagram K MessageType.relayData envelope), t', w') := by
  have hformat : s.formatPacketDataWithType K MessageType.relayData envelope maxPacketSize =
      .ok (some (s.datagram K MessageType.relayData envelope), s.advance) :=
    Session.formatPacketDataWithType_eq hroom hcounter
  rw [Tunn.encapsulateRelay, Tunn.encapsulateWithType, Tunn.sealWithCurrent, hs]
  simp only [World.sealPacket, hformat, ok_bind, pure_eq_ok]
  exact ⟨_, _, rfl⟩

section Flush

variable {s : Session} {addr : SocketAddr} {v : QueuedPacket} {rest : List QueuedPacket}
  (hpooled : d.Pooled items) (hpeer : d.peers.peerByKey key = some peer)
  (hs : peer.tunnel.currentSession = some s) (hwaits : d.waiting key = v :: rest)
include hpooled hpeer hs hwaits

theorem flushQueuedPackets_direct (haddr : peer.endpoint = some addr)
    (hcounter : s.sendingKeyCounter < rejectAfterMessages) (hrelay : peer.relay = none)
    (hroom : 32 + Session.paddedLen v.data.length ≤ maxPacketSize) :
    ∃ d', flushQueuedPackets key 1 d = .ok ([.udp (s.datagram K v.packetType v.data) addr], d') := by
  have hholds := hpooled.family.holds key
  rw [queueOf_of_peer hpeer] at hholds
  rw [hpooled.waiting key] at hwaits
  obtain ⟨⟨x, v'⟩, items', hitems, hv, -⟩ := List.map_eq_cons_iff.mp hwaits
  obtain rfl : v' = v := hv
  rcases Tunn.flushQueuedPacket_spec hpooled.wf hholds (hpooled.bounded key) maxPacketSize with
    ⟨r, t, w, hcall, -, hsent⟩ | ⟨-, y, u, ys, hcons, hsmall⟩
  · have hsend := Tunn.maySend_eq_true hs hcounter
    obtain ⟨packet, rfl⟩ := hsent.mpr ⟨hsend, by simp [hitems]⟩
    obtain ⟨y, u, ys, s', hcons, hs', rfl, -, -⟩ :=
      Tunn.flushQueuedPacket_datagram hpooled.wf hholds hcall
    cases hitems.symm.trans hcons
    cases hs.symm.trans hs'
    have hafter := setTunnel_peerByKey hpeer t w
    rw [flushQueuedPackets, hpeer]
    simp only [hcall, ok_bind, preparePacketToPeer, hafter, hrelay, haddr, Option.map_some,
      flushQueuedPackets, pure_eq_ok]
    exact ⟨_, rfl⟩
  · cases hitems.symm.trans hcons
    omega

theorem relay_eq_none_of_flush (htype : v.packetType = MessageType.relayData)
    (hflush : flushQueuedPackets key 1 d =
      .ok ([.udp (s.datagram K v.packetType v.data) addr], d')) :
    peer.relay = none ∧ 32 + Session.paddedLen v.data.length ≤ maxPacketSize := by
  have hholds := hpooled.family.holds key
  rw [queueOf_of_peer hpeer] at hholds
  rw [hpooled.waiting key] at hwaits
  obtain ⟨⟨x, v'⟩, items', hitems, hv, -⟩ := List.map_eq_cons_iff.mp hwaits
  obtain rfl : v' = v := hv
  rw [flushQueuedPackets, hpeer] at hflush
  obtain ⟨⟨r, t, w⟩, hcall, hflush⟩ := bind_ok_iff.mp hflush
  cases r with
  | writeToNetwork packet =>
    obtain ⟨y, u, ys, s', hcons, hs', rfl, -, hroom, -⟩ :=
      Tunn.flushQueuedPacket_datagram hpooled.wf hholds hcall
    cases hitems.symm.trans hcons
    cases hs.symm.trans hs'
    refine ⟨?_, hroom⟩
    obtain ⟨⟨pending, d₂⟩, hprepare, hflush⟩ := bind_ok_iff.mp hflush
    obtain ⟨⟨outputs, d₃⟩, hnext, hflush⟩ := bind_ok_iff.mp hflush
    cases hnext
    have hsent := congrArg Prod.fst (Except.ok.inj hflush)
    rw [preparePacketToPeer, setTunnel_peerByKey hpeer t w] at hprepare
    cases hrelay : peer.relay with
    | none => rfl
    | some relay =>
      simp only [hrelay] at hprepare
      cases pending with
      | none => cases hsent
      | some pending =>
        obtain ⟨sent, addr'⟩ := pending
        cases hsent
        rcases preparePacketToPeerViaRelay_longer hprepare with hhandshake | hlonger
        · rw [AnnouncesHandshake, htype, messageTypeOf_datagram s v'.data (by decide)] at hhandshake
          exact absurd hhandshake (by decide)
        · rw [envelopeHeaderSize] at hlonger
          omega
  | done | err | writeToInterfaceV4 | writeToInterfaceV6 => cases hflush

end Flush

theorem setTunnel_waiting (hpeer : d.peers.peerByKey key = some peer) {t : Tunn K}
    {w : World K N BYTES} {items : List (ℕ × QueuedPacket)}
    (hholds : Holds w.pool.view t.packetQueue items) (hlen : items.length ≤ maxPendingPackets) :
    (d.setTunnel key peer t w).waiting key = items.map Prod.snd := by
  rw [waiting, queueOf_of_peer (setTunnel_peerByKey hpeer t w)]
  exact hholds.readBack hlen

variable {profile : Profile} {config : Config K} {resources : Resources} {draws : Draws}
  {clock : ℕ → ℕ} {secrets : ℕ → K.Secret}

/-- At any moment of a run: an envelope for a relay without a usable session waits as it is, and
once the session is there, it is sent as it would have been sent right away exactly when the relay
has no relay of its own. -/
theorem flush_sends_relayed_iff
    (hnew : new profile config resources draws clock secrets = .ok (.ok d₀))
    {events : List Event} {outputs : List (List Output)}
    (hrun : Machine.run step d₀ events = .ok (outputs, d₁)) (hmoves : Moves True d₁ d)
    (hpeer : d.peers.peerByKey key = some peer) :
    (∀ (envelope : Bytes) (r : TunnResult) (t : Tunn K) (w : World K N BYTES),
      peer.tunnel.maySend = false →
      peer.tunnel.encapsulateRelay envelope maxPacketSize d.world = .ok (r, t, w) →
      ∃ room, (d.setTunnel key peer t w).waiting key =
        Fifo.enqueue d.world.now.1 MessageType.relayData envelope room (d.waiting key)) ∧
    ∀ (s : Session) (addr : SocketAddr) (queuedAt : ℕ) (envelope : Bytes)
      (rest : List QueuedPacket),
      peer.endpoint = some addr → peer.tunnel.currentSession = some s →
      s.sendingKeyCounter < rejectAfterMessages →
      d.waiting key = ⟨queuedAt, MessageType.relayData, envelope⟩ :: rest →
      (32 + Session.paddedLen envelope.length ≤ maxPacketSize →
        ∃ t w, peer.tunnel.encapsulateRelay envelope maxPacketSize d.world =
          .ok (.writeToNetwork (s.datagram K MessageType.relayData envelope), t, w)) ∧
      ((∃ d', flushQueuedPackets key 1 d =
          .ok ([.udp (s.datagram K MessageType.relayData envelope) addr], d')) ↔
        peer.relay = none ∧ 32 + Session.paddedLen envelope.length ≤ maxPacketSize) := by
  obtain ⟨items₁, hpooled₁, -⟩ := run_orphans hrun (new_pooled hnew).1
  obtain ⟨items, hpooled, -⟩ := hmoves.follows hpooled₁
  constructor
  · intro envelope r t w hsend hcall
    have hholds := hpooled.family.holds key
    rw [queueOf_of_peer hpeer] at hholds
    obtain ⟨items', hholds', hitems⟩ :=
      Tunn.encapsulateWithType_waits hpooled.wf hholds hsend hcall
    have hlen : items'.length ≤ maxPendingPackets := by
      rw [← List.length_map Prod.snd, hitems]
      apply Fifo.length_enqueue_le
      rw [List.length_map]
      exact hpooled.bounded key
    refine ⟨peer.tunnel.hasRoom MessageType.relayData envelope d.world, ?_⟩
    rw [setTunnel_waiting hpeer hholds' hlen, hitems, hpooled.waiting key]
  · intro s addr queuedAt envelope rest haddr hs hcounter hwaits
    refine ⟨encapsulateRelay_eq d.world hs hcounter, ?_, ?_⟩
    · intro ⟨d', hflush⟩
      exact relay_eq_none_of_flush hpooled hpeer hs hwaits rfl hflush
    · intro ⟨hrelay, hroom⟩
      exact flushQueuedPackets_direct hpooled hpeer hs hwaits haddr hcounter hrelay hroom

end Device

namespace Sample

open Device

def relayedPeers (relay : Option PublicKey) : List PeerConfig :=
  [peerConfig 5 lan (some (key 7)), peerConfig 7 [] relay, peerConfig 9 [] none]

def envelopeWaits (d : Device Crypto.sample 8 8192) : Bool :=
  (d.waiting (key 7)).map (·.packetType) = [MessageType.relayData]

def relayedTo (addr : SocketAddr) : Output → Bool
  | .udp packet dst => dst = addr && messageTypeOf packet = MessageType.relayData
  | _ => false

theorem initiationOf_fits : (initiationOf 7 1).length ≤ maxPacketSize := by decide +kernel

/-- Relay 7 is itself behind relay 9. Its handshake ends the wait, and nothing is sent to it. -/
theorem chained_relay_detour :
    ∃ start o₁ d₁ o₂ d₂,
      device 1 (relayedPeers (some (key 9))) = .ok (.ok start) ∧
      Machine.run step start [.tunPacket innerPacket (by decide)] = .ok (o₁, d₁) ∧
      d₁.step (.udpPacket (initiationOf 7 1) initiationOf_fits (addr 7)) = .ok (o₂, d₂) ∧
      envelopeWaits d₁ = true ∧ d₂.waiting (key 7) = [] ∧
      ((d₂.peers.peerByKey (key 7)).any fun peer => peer.tunnel.maySend) = true ∧
      o₂.any (relayedTo (addr 7)) = false := by
  have hsample : runAnd 1 (relayedPeers (some (key 9))) [.tunPacket innerPacket (by decide)]
      (fun (_, d₁) => envelopeWaits d₁ &&
        okAnd (fun (o₂, d₂) => d₂.waiting (key 7) = [] &&
            ((d₂.peers.peerByKey (key 7)).any fun peer => peer.tunnel.maySend) &&
            !o₂.any (relayedTo (addr 7)))
          (d₁.step (.udpPacket (initiationOf 7 1) initiationOf_fits (addr 7)))) = true := by
    decide +kernel
  obtain ⟨start, o₁, d₁, hnew, hrun, hp⟩ := exists_of_runAnd hsample
  obtain ⟨hwaits, hstep⟩ := Bool.and_eq_true_iff.mp hp
  obtain ⟨⟨o₂, d₂⟩, hstep, hend⟩ := exists_of_okAnd hstep
  simp only [Bool.and_eq_true, decide_eq_true_eq, Bool.not_eq_true'] at hend
  exact ⟨start, o₁, d₁, o₂, d₂, hnew, hrun, hstep, hwaits, hend.1.1, hend.1.2, hend.2⟩

def greeted (d : Device Crypto.sample 8 8192) : Option (Device Crypto.sample 8 8192) :=
  match d.peers.peerByKey (key 7), parseIncomingPacket (initiationOf 7 1) with
  | some peer, .ok packet =>
    match peer.tunnel.handleVerifiedPacket packet maxPacketSize d.world with
    | .ok (_, t, w) => some (d.setTunnel (key 7) peer t w)
    | .error _ => none
  | _, _ => none

theorem greeted_moves {d d' : Device Crypto.sample 8 8192} (h : greeted d = some d') :
    Moves True d d' := by
  rw [greeted] at h
  split at h
  · rename_i peer packet hpeer hpacket
    split at h
    · rename_i r t w hcall
      cases h
      exact Move.moves (.tunnel hpeer (.receive hcall))
    · cases h
  · cases h

def readyToFlush (d : Device Crypto.sample 8 8192) : Bool :=
  match d.peers.peerByKey (key 7), d.waiting (key 7) with
  | some peer, [v] => peer.endpoint = some (addr 7) && peer.relay = none && peer.tunnel.maySend &&
      v.packetType = MessageType.relayData && 32 + Session.paddedLen v.data.length ≤ maxPacketSize
  | _, _ => false

theorem flush_sends_relayed_iff_direct :
    ∃ start o₁ d₁ d s v d',
      device 1 (relayedPeers none) = .ok (.ok start) ∧
      Machine.run step start [.tunPacket innerPacket (by decide)] = .ok (o₁, d₁) ∧
      greeted d₁ = some d ∧ d.waiting (key 7) = [v] ∧
      flushQueuedPackets (key 7) 1 d =
        .ok ([.udp (Session.datagram Crypto.sample s MessageType.relayData v.data) (addr 7)], d') := by
  have hsample : runAnd 1 (relayedPeers none) [.tunPacket innerPacket (by decide)]
      (fun (_, d₁) => (greeted d₁).any readyToFlush) = true := by
    decide +kernel
  obtain ⟨start, o₁, d₁, hnew, hrun, hp⟩ := exists_of_runAnd hsample
  obtain ⟨d, hgreeted, hready⟩ := (Option.any_eq_true _ _).mp hp
  rw [readyToFlush] at hready
  split at hready
  · rename_i peer v hpeer hwaits
    simp only [Bool.and_eq_true, decide_eq_true_eq] at hready
    obtain ⟨⟨⟨⟨haddr, hrelay⟩, hsend⟩, htype⟩, hroom⟩ := hready
    obtain ⟨queuedAt, packetType, envelope⟩ := v
    obtain rfl : packetType = MessageType.relayData := htype
    obtain ⟨s, hs, hcounter⟩ := (Option.any_eq_true _ _).mp hsend
    obtain ⟨-, hflush⟩ :=
      flush_sends_relayed_iff hnew hrun (greeted_moves hgreeted) hpeer
    obtain ⟨d', hsent⟩ := (hflush s (addr 7) queuedAt envelope [] haddr hs
      (of_decide_eq_true hcounter) hwaits).2.mpr ⟨hrelay, hroom⟩
    exact ⟨start, o₁, d₁, d, s, _, d', hnew, hrun, hgreeted, hwaits, hsent⟩
  · cases hready

end Sample

end Tendrilix
