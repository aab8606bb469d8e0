import Tendrilix.Device.Room
import Tendrilix.Device.Sealing
import Tendrilix.Noise.TunnelRoom

/-!
# Packets that outgrow the buffers

Whatever a device seals fits the buffers, unless a packet that waits for a peer is wrapped in an
envelope when it is flushed. The check in front of the envelope leaves room for the envelope, but
not for the seal around it.
-/

namespace Tendrilix

open Noise

variable {K : Crypto} {N BYTES : ℕ}

theorem Noise.Session.room_of_le {len : ℕ} (h : len + packetOverhead ≤ maxPacketSize) :
    32 + paddedLen len ≤ maxPacketSize := by
  have hmax : mtu + 32 ≤ maxPacketSize := by decide
  have hoverhead : packetOverhead = 32 := rfl
  rw [paddedLen]
  split
  · omega
  · dsimp only
    split
    · omega
    · omega

theorem TunnelCall.params {t t' : Tunn K} {w w' : World K N BYTES} (h : TunnelCall t w t' w') :
    t'.handshake.params = t.handshake.params := by
  obtain ⟨ls, hpath⟩ := h.path
  exact hpath.params

namespace Device

variable {d d' d'' : Device K N BYTES} {Q Q' : PublicKey → QueuedPacket → Prop} {key : PublicKey}
  {peer : Peer K}

def Fits (v : QueuedPacket) : Prop := v.data.length + packetOverhead ≤ maxPacketSize

/-- The static key of the peer's tunnel has the size of a key. -/
def KeyFits (_ : PublicKey) (peer : Peer K) : Prop :=
  peer.tunnel.handshake.params.staticPublic.length = 32

theorem keyFits_inherited (profile : Profile) : Inherited profile N BYTES (KeyFits (K := K)) where
  new _ _ _ _ _ _ _ _ _ _ := K.length_publicKey _
  update _ _ _ _ := id

structure Sized (Q : PublicKey → QueuedPacket → Prop) (d : Device K N BYTES) : Prop where
  waits : d.Waits fun key v => Fits v ∧ Q key v
  params : d.peers.All KeyFits

theorem Sized.mono (h : d.Sized Q) (hQ : ∀ key v, Q key v → Q' key v) : d.Sized Q' := by
  obtain ⟨items, hpooled, hitems⟩ := h.waits
  exact ⟨⟨items, hpooled, fun k v hv => (hitems k v hv).imp_right (hQ k v)⟩, h.params⟩

theorem Sized.setTunnel (h : d.Sized Q) (hpeer : d.peers.peerByKey key = some peer) {t : Tunn K}
    {w : World K N BYTES} {P : MessageType → Bytes → Prop} (call : TunnelCall peer.tunnel d.world t w)
    (hqueues : Tunn.Queues P peer.tunnel d.world t w)
    (hP : ∀ v, P v.packetType v.data → Fits v ∧ Q key v) : (d.setTunnel key peer t w).Sized Q := by
  refine ⟨h.waits.setTunnel hpeer hqueues hP, fun k peer' hpeer' => ?_⟩
  have hmem := Bounded.mem_of_lookup hpeer
  rcases (Bounded.lookup_replace_eq_some_iff hmem).mp hpeer' with ⟨rfl, rfl⟩ | ⟨-, hother⟩
  · have hparams : t.handshake.params = peer.tunnel.handshake.params := call.params
    rw [KeyFits, hparams]
    exact h.params k peer hpeer
  · exact h.params k peer' hother

def Quieter (d d' : Device K N BYTES) : Prop :=
  ∀ key peer', d'.peers.peerByKey key = some peer' → ∃ peer, d.peers.peerByKey key = some peer ∧
    peer'.relay = peer.relay ∧ (peer.tunnel.maySend = false → peer'.tunnel.maySend = false)

theorem Quieter.refl (d : Device K N BYTES) : d.Quieter d :=
  fun _ peer hpeer => ⟨peer, hpeer, rfl, id⟩

theorem Quieter.trans (h : d.Quieter d') (h' : d'.Quieter d'') : d.Quieter d'' := by
  intro k peer'' hpeer''
  obtain ⟨peer', hpeer', hrelay', hsend'⟩ := h' k peer'' hpeer''
  obtain ⟨peer, hpeer, hrelay, hsend⟩ := h k peer' hpeer'
  exact ⟨peer, hpeer, hrelay'.trans hrelay, fun hno => hsend' (hsend hno)⟩

theorem QueuesOnly.quieter (h : QueuesOnly d d') : d.Quieter d' := by
  intro k peer' hpeer'
  obtain ⟨peer, q, hpeer, rfl⟩ := h k peer' hpeer'
  exact ⟨peer, hpeer, rfl, id⟩

theorem Quieter.setTunnel (hpeer : d.peers.peerByKey key = some peer) {t : Tunn K}
    {w : World K N BYTES} (hsend : peer.tunnel.maySend = false → t.maySend = false) :
    d.Quieter (d.setTunnel key peer t w) := by
  intro k peer' hpeer'
  have hmem := Bounded.mem_of_lookup hpeer
  rcases (Bounded.lookup_replace_eq_some_iff hmem).mp hpeer' with ⟨rfl, rfl⟩ | ⟨-, hother⟩
  · exact ⟨peer, hpeer, rfl, hsend⟩
  · exact ⟨peer', hother, rfl, id⟩

/-! ### Dropping and sealing -/

theorem dropExpiredPacketQueues_sized (h : d.Sized Q) :
    Ensures d.dropExpiredPacketQueues (fun (_, d') => d'.Sized Q ∧ QueuesOnly d d')
      (· ≠ .destinationBufferTooSmall) := by
  constructor
  · intro (dropped, d') hcall
    have hqueues := dropExpiredPacketQueues_queuesOnly hcall
    refine ⟨⟨(dropExpiredPacketQueues_waits hcall h.waits).1, fun k peer' hpeer' => ?_⟩, hqueues⟩
    obtain ⟨peer, q, hpeer, rfl⟩ := hqueues k peer' hpeer'
    exact h.params k peer hpeer
  · obtain ⟨dropped, d', hcall⟩ := dropExpiredPacketQueues_total h.waits
    intro e hfault
    cases hcall.symm.trans hfault

theorem encapsulateWithType_sized (h : d.Sized Q) (hpeer : d.peers.peerByKey key = some peer)
    (packetType : MessageType) {src : Bytes} (hsrc : src.length + packetOverhead ≤ maxPacketSize)
    (hQ : peer.tunnel.maySend = false → ∀ v : QueuedPacket, v.data = src → Q key v) :
    Ensures (peer.tunnel.encapsulateWithType packetType src maxPacketSize d.world)
      (fun (r, t, w) => (d.setTunnel key peer t w).Sized Q ∧ d.Quieter (d.setTunnel key peer t w) ∧
        ∀ packet, r = .writeToNetwork packet →
          packet.length ≤ max handshakeInitSz (32 + Session.paddedLen src.length))
      (· ≠ .destinationBufferTooSmall) := by
  constructor
  · intro (r, t, w) hcall
    have htunnel : TunnelCall peer.tunnel d.world t w := .encapsulate hcall
    refine ⟨?_, Quieter.setTunnel hpeer fun hno => Tunn.encapsulateWithType_maySend hno hcall, ?_⟩
    · cases hsend : peer.tunnel.maySend with
      | true =>
        exact h.setTunnel hpeer htunnel
          ((Tunn.encapsulateWithType_sends hsend hcall).queues fun _ _ => False) nofun
      | false =>
        refine h.setTunnel hpeer htunnel (Tunn.encapsulateWithType_queues hcall) ?_
        intro v hv
        refine ⟨?_, hQ hsend v hv.2⟩
        rw [Fits, hv.2]
        exact hsrc
    · rintro packet rfl
      rcases Tunn.encapsulateWithType_writes hcall packet rfl with
        hhandshaken | ⟨s, packetType, src, ⟨rfl, rfl⟩, -, -, rfl⟩
      · exact le_max_of_le_left (hhandshaken.length_le (h.params key peer hpeer))
      · rw [Session.length_datagram]
        exact le_max_right _ _
  · rintro _ hfault rfl
    obtain ⟨items, hpooled, -⟩ := h.waits
    have hholds := hpooled.family.holds key
    rw [queueOf_of_peer hpeer] at hholds
    exact Tunn.encapsulateWithType_avoids Fault.measured_room _ packetType _
      (fun _ => Session.room_of_le hsrc) hfault

/-! ### Wrapping -/

def Wraps (len : ℕ) : Prop :=
  envelopeHeaderSize + len ≤ maxPacketSize →
    envelopeHeaderSize + len + packetOverhead ≤ maxPacketSize

theorem wraps_of_le {len : ℕ} (h : len ≤ handshakeInitSz) : Wraps len := fun _ =>
  (Nat.add_le_add_right (Nat.add_le_add_left h _) _).trans (by decide)

theorem preparePacketToPeerViaRelay_sized (h : d.Sized Q) (destination : PublicKey)
    {relay : PublicKey} {packet : Bytes}
    (hwraps : (d.peers.peerByKey relay).isSome = true → Wraps packet.length)
    (hQ : ∀ relayPeer, d.peers.peerByKey relay = some relayPeer →
      relayPeer.tunnel.maySend = false → ∀ v : QueuedPacket,
        v.data.length = envelopeHeaderSize + packet.length → Q relay v) :
    Ensures (d.preparePacketToPeerViaRelay destination relay packet)
      (fun (_, d') => d'.Sized Q ∧ d.Quieter d') (· ≠ .destinationBufferTooSmall) := by
  rw [preparePacketToPeerViaRelay]
  split
  · exact .ok ⟨h, .refl d⟩
  rename_i envelope hbuild
  have hlength := Relay.length_buildEnvelope hbuild
  refine Ensures.bind (dropExpiredPacketQueues_sized h) ?_
  rintro ⟨dropped, d₁⟩ - ⟨hsized₁, hqueues⟩
  dsimp only
  split
  · exact .ok ⟨hsized₁, hqueues.quieter⟩
  rename_i relayPeer₁ hpeer₁
  obtain ⟨relayPeer, q, hpeer, rfl⟩ := hqueues relay relayPeer₁ hpeer₁
  have hroom : envelope.length + packetOverhead ≤ maxPacketSize := by
    rw [hlength]
    apply hwraps (by rw [hpeer]; rfl)
    rw [← hlength]
    exact Relay.length_buildEnvelope_le hbuild
  have hnew : relayPeer.tunnel.maySend = false → ∀ v : QueuedPacket, v.data = envelope →
      Q relay v := by
    intro hno v hv
    exact hQ relayPeer hpeer hno v (by rw [hv, hlength])
  refine Ensures.bind (encapsulateWithType_sized hsized₁ hpeer₁ MessageType.relayData hroom hnew) ?_
  rintro ⟨r, t, w⟩ - ⟨hsized₂, hquieter, -⟩
  cases r with
  | writeToNetwork sent => exact .ok ⟨hsized₂, hqueues.quieter.trans hquieter⟩
  | done => exact .ok ⟨hsized₂, hqueues.quieter.trans hquieter⟩
  | err e => exact .ok ⟨hsized₂, hqueues.quieter.trans hquieter⟩
  | writeToInterfaceV4 => exact .error (by decide)
  | writeToInterfaceV6 => exact .error (by decide)

theorem preparePacketToPeer_sized (h : d.Sized Q) {packet : Bytes}
    (hwraps : ∀ peer relay, d.peers.peerByKey key = some peer → peer.relay = some relay →
      (d.peers.peerByKey relay).isSome = true → Wraps packet.length)
    (hQ : ∀ relay relayPeer, d.peers.peerByKey relay = some relayPeer →
      relayPeer.tunnel.maySend = false → ∀ v : QueuedPacket,
        v.data.length = envelopeHeaderSize + packet.length → Q relay v) :
    Ensures (d.preparePacketToPeer key packet) (fun (_, d') => d'.Sized Q ∧ d.Quieter d')
      (· ≠ .destinationBufferTooSmall) := by
  rw [preparePacketToPeer]
  split
  · exact .ok ⟨h, .refl d⟩
  rename_i peer hpeer
  split
  · rename_i relay hrelay
    exact preparePacketToPeerViaRelay_sized h key (hwraps peer relay hpeer hrelay) (hQ relay)
  · exact .ok ⟨h, .refl d⟩

abbrev Plain : PublicKey → QueuedPacket → Prop := fun _ _ => True

theorem handleTunPacket_sized (h : d.Sized Plain) {src : Bytes} (hsrc : src.length ≤ mtu) :
    Ensures (d.handleTunPacket src) (fun (_, d') => d'.Sized Plain)
      (· ≠ .destinationBufferTooSmall) := by
  rw [handleTunPacket]
  split
  · exact .ok h
  refine Ensures.bind (d.peers.peersByIp.find_roomy _).ensures ?_
  rintro route - -
  cases route with
  | none => exact .ok h
  | some publicKey =>
    refine Ensures.bind (dropExpiredPacketQueues_sized h) ?_
    rintro ⟨dropped, d₁⟩ - ⟨hsized₁, -⟩
    dsimp only
    split
    · exact .ok hsized₁
    rename_i peer hpeer
    have hroom : src.length + packetOverhead ≤ maxPacketSize :=
      (Nat.add_le_add_right hsrc _).trans (by decide)
    refine Ensures.bind (encapsulateWithType_sized hsized₁ hpeer MessageType.data hroom
      fun _ _ _ => trivial) ?_
    rintro ⟨r, t, w⟩ - ⟨hsized₂, -, hlength⟩
    cases r with
    | done | err => exact .ok hsized₂
    | writeToNetwork packet =>
      have hlength := hlength packet rfl
      have hpadded := Session.paddedLen_le_mtu hsrc
      have hwraps : Wraps packet.length := by
        intro _
        have hbound : packet.length ≤ 1312 := hlength.trans (max_le (by decide) (by
          have hmtu : mtu = 1280 := rfl
          omega))
        exact (Nat.add_le_add_right (Nat.add_le_add_left hbound _) _).trans (by decide)
      refine Ensures.bind (preparePacketToPeer_sized hsized₂ (fun _ _ _ _ _ => hwraps)
        fun _ _ _ _ _ _ => trivial) ?_
      rintro ⟨pending, d₂⟩ - ⟨hsized₃, -⟩
      exact .ok hsized₃
    | writeToInterfaceV4 | writeToInterfaceV6 => exact .error (by decide)

theorem forwardEnvelope_sized (h : d.Sized Plain) {plaintext : Bytes}
    (hfits : plaintext.length + packetOverhead ≤ maxPacketSize) :
    Ensures (d.forwardEnvelope key plaintext) (fun (_, d') => d'.Sized Plain)
      (· ≠ .destinationBufferTooSmall) := by
  rw [forwardEnvelope]
  split
  · exact .ok h
  rename_i envelope hparse
  split
  · exact .ok h
  dsimp only
  split
  · exact .ok h
  split
  · refine Ensures.bind (dropExpiredPacketQueues_sized h) ?_
    rintro ⟨dropped, d₁⟩ - ⟨hsized₁, -⟩
    dsimp only
    split
    · exact .ok hsized₁
    rename_i relayPeer hpeer
    split
    · exact .ok hsized₁
    rename_i next hdecrement
    have hlength : next.bytes.length = plaintext.length := by
      rw [(Relay.Envelope.decrementHopLimit_ok hdecrement).2.1, List.length_set,
        (Relay.Envelope.parse_ok hparse).1]
    refine Ensures.bind (encapsulateWithType_sized hsized₁ hpeer MessageType.relayData
      (hlength ▸ hfits) fun _ _ _ => trivial) ?_
    rintro ⟨r, t, w⟩ - ⟨hsized₂, -, -⟩
    cases r with
    | done | err | writeToNetwork => exact .ok hsized₂
    | writeToInterfaceV4 | writeToInterfaceV6 => exact .error (by decide)
  · exact .ok h
  · exact .ok h

/-! ### Flushing -/

/-- The packet fits, but its envelope would not. -/
def Bulky (v : QueuedPacket) : Prop := mtu < v.data.length ∧ v.data.length ≤ mtu + packetOverhead

theorem wraps_of_not_bulky {v : QueuedPacket} (h : ¬Bulky v) :
    Wraps (32 + Session.paddedLen v.data.length) := by
  intro hcheck
  have hmtu : mtu = 1280 := rfl
  have hoverhead : packetOverhead = 32 := rfl
  have hheader : envelopeHeaderSize = 36 := rfl
  have hmax : maxPacketSize = 1380 := rfl
  rcases Nat.lt_or_ge mtu v.data.length with hlong | hshort
  · have hle := Session.le_paddedLen v.data.length
    have hbulky : Bulky v := ⟨hlong, by omega⟩
    exact absurd hbulky h
  · have hle := Session.paddedLen_le_mtu hshort
    omega

def Unwrapped (d : Device K N BYTES) (key : PublicKey) : PublicKey → QueuedPacket → Prop :=
  fun k v => k = key → ∀ peer relay, d.peers.peerByKey key = some peer →
    peer.tunnel.maySend = true → peer.relay = some relay →
      (d.peers.peerByKey relay).isSome = true → ¬Bulky v

theorem Quieter.isSome (h : d.Quieter d') {key : PublicKey}
    (hsome : (d'.peers.peerByKey key).isSome = true) : (d.peers.peerByKey key).isSome = true := by
  obtain ⟨peer', hpeer'⟩ := Option.isSome_iff_exists.mp hsome
  obtain ⟨peer, hpeer, -⟩ := h key peer' hpeer'
  rw [hpeer]
  rfl

theorem Quieter.unwrapped (h : d.Quieter d') {k : PublicKey} {v : QueuedPacket}
    (hv : d.Unwrapped key k v) : d'.Unwrapped key k v := by
  intro hk peer' relay hpeer' hsend hrelay hconfigured
  obtain ⟨peer, hpeer, hsame, hno⟩ := h key peer' hpeer'
  refine hv hk peer relay hpeer ?_ (hsame ▸ hrelay) (h.isSome hconfigured)
  by_contra hoff
  rw [hno (Bool.not_eq_true _ ▸ hoff)] at hsend
  cases hsend

theorem flushQueuedPacket_sized (h : d.Sized (d.Unwrapped key))
    (hpeer : d.peers.peerByKey key = some peer) :
    Ensures (peer.tunnel.flushQueuedPacket maxPacketSize d.world)
      (fun (r, t, w) => (d.setTunnel key peer t w).Sized (d.Unwrapped key) ∧
        d.Quieter (d.setTunnel key peer t w) ∧
        ∀ packet relay, r = .writeToNetwork packet → peer.relay = some relay →
          (d.peers.peerByKey relay).isSome = true → Wraps packet.length)
      (· ≠ .destinationBufferTooSmall) := by
  obtain ⟨items, hpooled, hitems⟩ := h.waits
  have hholds := hpooled.family.holds key
  rw [queueOf_of_peer hpeer] at hholds
  constructor
  · intro (r, t, w) hcall
    refine ⟨h.setTunnel hpeer (.flush hcall) (Tunn.flushQueuedPacket_queues hcall) nofun,
      Quieter.setTunnel hpeer fun hno => Tunn.flushQueuedPacket_maySend hno hcall, ?_⟩
    rintro packet relay rfl hrelay hconfigured
    obtain ⟨x, v, rest, s, hcons, hs, rfl, hcounter, -⟩ :=
      Tunn.flushQueuedPacket_datagram hpooled.wf hholds hcall
    have hmem : v ∈ (items key).map Prod.snd := by simp [hcons]
    have hsend := Tunn.maySend_eq_true hs hcounter
    rw [Session.length_datagram]
    exact wraps_of_not_bulky ((hitems key v hmem).2 rfl peer relay hpeer hsend hrelay hconfigured)
  · rintro _ hfault rfl
    refine Tunn.flushQueuedPacket_roomy hpooled.wf hholds (hpooled.bounded key) (fun v hv => ?_) hfault
    exact Session.room_of_le (hitems key v hv).1

theorem flushQueuedPackets_sized {fuel : ℕ} (h : d.Sized (d.Unwrapped key)) :
    Ensures (flushQueuedPackets key fuel d) (fun (_, d') => d'.Sized Plain)
      (· ≠ .destinationBufferTooSmall) := by
  induction fuel generalizing d with
  | zero => exact .ok (h.mono fun _ _ _ => trivial)
  | succ fuel ih =>
    rw [flushQueuedPackets]
    split
    · exact .ok (h.mono fun _ _ _ => trivial)
    rename_i peer hpeer
    refine Ensures.bind (flushQueuedPacket_sized h hpeer) ?_
    rintro ⟨r, t, w⟩ - ⟨hsized₁, hquieter₁, hpacket⟩
    have hsame := setTunnel_peerByKey hpeer t w
    cases r with
    | writeToNetwork packet =>
      have hwraps : ∀ peer₁ relay,
          (d.setTunnel key peer t w).peers.peerByKey key = some peer₁ → peer₁.relay = some relay →
          ((d.setTunnel key peer t w).peers.peerByKey relay).isSome = true →
          Wraps packet.length := by
        intro peer₁ relay hpeer₁ hrelay hconfigured
        cases hsame.symm.trans hpeer₁
        exact hpacket packet relay rfl hrelay (hquieter₁.isSome hconfigured)
      -- A relay that queues the envelope may not send, and so is not flushed any more.
      have hnew : ∀ relay relayPeer,
          (d.setTunnel key peer t w).peers.peerByKey relay = some relayPeer →
          relayPeer.tunnel.maySend = false → ∀ v : QueuedPacket,
            v.data.length = envelopeHeaderSize + packet.length →
            (d.setTunnel key peer t w).Unwrapped key relay v := by
        rintro relay relayPeer hrelayPeer hno v - rfl peer₁ relay' hpeer₁ hsend
        cases hrelayPeer.symm.trans hpeer₁
        rw [hno] at hsend
        cases hsend
      refine Ensures.bind (preparePacketToPeer_sized
        (hsized₁.mono fun _ _ => hquieter₁.unwrapped) hwraps hnew) ?_
      rintro ⟨pending, d₁⟩ - ⟨hsized₂, hquieter₂⟩
      refine Ensures.bind (ih (hsized₂.mono fun _ _ => hquieter₂.unwrapped)) ?_
      rintro ⟨outputs, d₂⟩ - hsized₃
      exact .ok hsized₃
    | done | err | writeToInterfaceV4 | writeToInterfaceV6 =>
      exact .ok (hsized₁.mono fun _ _ _ => trivial)

theorem finishUdpPacket_sized (h : d.Sized Plain) {r : TunnResult}
    (hanswer : ∀ packet, r = .writeToNetwork packet →
      packet.length ≤ handshakeInitSz ∧ d.Sized (d.Unwrapped key)) :
    Ensures (d.finishUdpPacket key peer r) (fun (_, d') => d'.Sized Plain)
      (· ≠ .destinationBufferTooSmall) := by
  cases r with
  | done | err => exact .ok h
  | writeToNetwork packet =>
    obtain ⟨hlength, hunwrapped⟩ := hanswer packet rfl
    have hsize : envelopeHeaderSize + packet.length ≤ 184 := Nat.add_le_add_left hlength _
    refine Ensures.bind (preparePacketToPeer_sized hunwrapped
      (fun _ _ _ _ _ => wraps_of_le hlength) ?_) ?_
    · rintro relay relayPeer - - v hv - peer' relay' - - - - ⟨hlong, -⟩
      have hmtu : mtu = 1280 := rfl
      omega
    rintro ⟨pending, d₁⟩ - ⟨hsized₁, hquieter⟩
    refine Ensures.bind (flushQueuedPackets_sized (hsized₁.mono fun _ _ => hquieter.unwrapped)) ?_
    rintro ⟨outputs, d₂⟩ - hsized₂
    exact .ok hsized₂
  | writeToInterfaceV4 packet addr | writeToInterfaceV6 packet addr =>
    exact Ensures.bind (peer.isAllowedIp_roomy _).ensures fun _ _ _ => .ok h

end Device

end Tendrilix
