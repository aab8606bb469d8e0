import Tendrilix.Device.Pending
import Tendrilix.Device.Roaming
import Tendrilix.Noise.RelaySpec
import Tendrilix.Noise.Written

/-!
# What a device seals

A device seals keepalives, packets from its network interface, envelopes around what it would have
sent directly, and envelopes that it forwards. What waits in a queue is one of these, under the
message type it is queued with.
-/

namespace Tendrilix

open Noise

variable {K : Crypto} {N BYTES : ℕ}

/-! ### The record of sealed packets -/

theorem Noise.Effect.sealed_subset {t t' : Tunn K} {w w' : World K N BYTES} {l : Option Packet}
    (h : Effect t w l t' w') : w.sealed ⊆ w'.sealed := by
  cases h with
  | encrypt call =>
    rcases Tunn.sealWithCurrent_ok call with ⟨-, -, rfl, -⟩ | ⟨packet, s, -, -, -, -, rfl⟩
    · exact fun _ => id
    · exact List.subset_cons_self _ _
  | initiate call =>
    obtain ⟨sent, cookies, -, -, -, rfl⟩ := Handshake.formatHandshakeInitiation_ok call
    exact fun _ => id
  | refuse call =>
    rw [(Handshake.receiveHandshakeInitialization_error call).1]
    exact fun _ => id
  | respond call =>
    obtain ⟨timestamp, hash, chainingKey, keys, cookies, -, -, -, -, rfl⟩ :=
      Handshake.receiveHandshakeInitialization_ok call
    exact fun _ => id
  | conclude call sent =>
    obtain ⟨state, keys, -, -, -, -, rfl⟩ := Handshake.receiveHandshakeResponse_ok call
    rcases World.sealPacket_ok sent with ⟨hr, -⟩ | ⟨packet, -, -, -, rfl⟩
    · cases hr
    · exact List.subset_cons_self _ _
  | _ => exact fun _ => id

theorem Noise.Path.sealed_subset {t t' : Tunn K} {w w' : World K N BYTES} {ls : List Packet}
    (h : Path t w ls t' w') : w.sealed ⊆ w'.sealed := by
  induction h with
  | nil => exact fun _ => id
  | cons effect _ ih => exact List.Subset.trans effect.sealed_subset ih

theorem TunnelCall.sealed_subset {t t' : Tunn K} {w w' : World K N BYTES}
    (h : TunnelCall t w t' w') : w.sealed ⊆ w'.sealed := by
  obtain ⟨ls, hpath⟩ := h.path
  exact hpath.sealed_subset

theorem Device.Moves.sealed_subset {roams : Prop} {d d' : Device K N BYTES}
    (h : Device.Moves roams d d') : d.world.sealed ⊆ d'.world.sealed := by
  induction h with
  | refl => exact fun _ => id
  | tail _ hlast ih =>
    refine List.Subset.trans ih ?_
    cases hlast with
    | tunnel _ call => exact call.sealed_subset
    | _ => exact fun _ => id

/-! ### Plaintexts -/

section Plaintexts

variable (K) (used : Set (Bytes × ℕ)) (Foreign : Bytes → Prop)

/-- The plaintexts that devices seal, in a network where `used` has the keys and counters that they
seal with, and where others submit the envelopes in `Foreign`. -/
inductive Sealable : MessageType → Bytes → Prop
  | keepalive : Sealable MessageType.data []
  | fromInterface {src : Bytes} (addressed : IpPacket.dstAddress src ≠ none) :
      Sealable MessageType.data src
  | wrapHandshake {destination : PublicKey} {packet envelope : Bytes}
      (handshake : AnnouncesHandshake packet)
      (built : Relay.buildEnvelope maxPacketSize destination packet = .ok envelope) :
      Sealable MessageType.relayData envelope
  | wrap {destination : PublicKey} {s : Session} {packetType : MessageType} {src envelope : Bytes}
      (inner : Sealable packetType src) (recorded : (s.sendingKey, s.sendingKeyCounter) ∈ used)
      (counter : s.sendingKeyCounter < rejectAfterMessages)
      (built : Relay.buildEnvelope maxPacketSize destination (s.datagram K packetType src) =
        .ok envelope) : Sealable MessageType.relayData envelope
  | forward {packetType : MessageType} {src : Bytes} {e e' : Relay.Envelope}
      (received : Sealable packetType src)
      (parsed : Relay.Envelope.parse (Session.padded src) = .ok e)
      (decremented : e.decrementHopLimit = .ok e') : Sealable MessageType.relayData e'.bytes
  | forwardForeign {plaintext : Bytes} {e e' : Relay.Envelope} (foreign : Foreign plaintext)
      (parsed : Relay.Envelope.parse plaintext = .ok e)
      (decremented : e.decrementHopLimit = .ok e') : Sealable MessageType.relayData e'.bytes

def Authored (plaintext : Bytes) : Prop :=
  Foreign plaintext ∨
    ∃ packetType src, Sealable K used Foreign packetType src ∧ plaintext = Session.padded src

def Formatted (packet : Bytes) : Prop :=
  AnnouncesHandshake packet ∨ Carries K used (Sealable K used Foreign) packet

def PassedOn (packet : Bytes) : Prop :=
  ∃ plaintext e, Foreign plaintext ∧ Relay.Envelope.parse plaintext = .ok e ∧
    packet = e.innerPacket

def Emitted (packet : Bytes) : Prop :=
  Formatted K used Foreign packet ∨ PassedOn Foreign packet

end Plaintexts

theorem IpPacket.version_of_address {v4Off v6Off : ℕ} {packet : Bytes}
    (h : IpPacket.address v4Off v6Off packet ≠ none) :
    IpPacket.version packet = 4 ∨ IpPacket.version packet = 6 := by
  rw [IpPacket.address] at h
  split at h
  · exact absurd rfl h
  split at h
  · rename_i hv4
    exact .inl hv4.1
  split at h
  · rename_i hv6
    exact .inr hv6.1
  · exact absurd rfl h

theorem IpPacket.version_append {packet : Bytes} (hne : packet ≠ []) (rest : Bytes) :
    IpPacket.version (packet ++ rest) = IpPacket.version packet := by
  cases packet with
  | nil => exact absurd rfl hne
  | cons b bs => rfl

theorem Noise.Relay.Envelope.version_of_parse {bytes : Bytes} {e : Relay.Envelope}
    (h : Relay.Envelope.parse bytes = .ok e) : IpPacket.version bytes = 0 := by
  obtain ⟨-, -, hversion, -⟩ := Relay.Envelope.parse_ok h
  cases bytes with
  | nil => rfl
  | cons b bs =>
    obtain rfl : b = Relay.envelopeVersion := hversion
    rfl

section Sealable

variable {used : Set (Bytes × ℕ)} {Foreign : Bytes → Prop} {packetType : MessageType}
  {src plaintext : Bytes} {e : Relay.Envelope}

theorem Sealable.inner (h : Sealable K used Foreign packetType src)
    (hparse : Relay.Envelope.parse (Session.padded src) = .ok e) :
    Emitted K used Foreign e.innerPacket := by
  induction h generalizing e with
  | keepalive => cases hparse
  | @fromInterface src addressed =>
    have hversion := Relay.Envelope.version_of_parse hparse
    have hip := IpPacket.version_of_address addressed
    have hne : src ≠ [] := by
      rintro rfl
      exact absurd hip (by decide)
    rw [Session.padded, IpPacket.version_append hne] at hversion
    omega
  | wrapHandshake handshake built =>
    obtain ⟨e', hparse', hreads⟩ := Relay.parse_buildEnvelope built _
    cases hparse'.symm.trans hparse
    rw [hreads.innerPacket_eq]
    exact .inl (.inl handshake)
  | wrap inner recorded counter built _ =>
    obtain ⟨e', hparse', hreads⟩ := Relay.parse_buildEnvelope built _
    cases hparse'.symm.trans hparse
    rw [hreads.innerPacket_eq]
    exact .inl (.inr ⟨_, _, _, inner, recorded, counter, rfl⟩)
  | forward _ parsed decremented ih =>
    obtain ⟨e', hparse', hreads⟩ := Relay.parse_decremented parsed decremented _
    cases hparse'.symm.trans hparse
    rw [hreads.innerPacket_eq]
    exact ih parsed
  | forwardForeign foreign parsed decremented =>
    obtain ⟨e', hparse', hreads⟩ := Relay.parse_decremented parsed decremented _
    cases hparse'.symm.trans hparse
    rw [hreads.innerPacket_eq]
    exact .inr ⟨_, _, foreign, parsed, rfl⟩

theorem Authored.inner (h : Authored K used Foreign plaintext)
    (hparse : Relay.Envelope.parse plaintext = .ok e) : Emitted K used Foreign e.innerPacket := by
  rcases h with hforeign | ⟨packetType, src, hsealable, rfl⟩
  · exact .inr ⟨plaintext, e, hforeign, hparse, rfl⟩
  · exact hsealable.inner hparse

theorem Authored.forward {e' : Relay.Envelope} (h : Authored K used Foreign plaintext)
    (hparse : Relay.Envelope.parse plaintext = .ok e) (hdecrement : e.decrementHopLimit = .ok e') :
    Sealable K used Foreign MessageType.relayData e'.bytes := by
  rcases h with hforeign | ⟨packetType, src, hsealable, rfl⟩
  · exact .forwardForeign hforeign hparse hdecrement
  · exact .forward hsealable hparse hdecrement

theorem Formatted.wrap {destination : PublicKey} {packet envelope : Bytes}
    (h : Formatted K used Foreign packet)
    (hbuild : Relay.buildEnvelope maxPacketSize destination packet = .ok envelope) :
    Sealable K used Foreign MessageType.relayData envelope := by
  rcases h with hhandshake | ⟨s, packetType, src, hsealable, hrecorded, hcounter, rfl⟩
  · exact .wrapHandshake hhandshake hbuild
  · exact .wrap hsealable hrecorded hcounter hbuild

end Sealable

/-! ### Handlers -/

namespace Device

variable {d d' : Device K N BYTES} {outputs outputs' : List Output} {used : Set (Bytes × ℕ)}
  {Foreign : Bytes → Prop} {roams : Prop} {key : PublicKey} {peer : Peer K}

def Waits (Q : PublicKey → QueuedPacket → Prop) (d : Device K N BYTES) : Prop :=
  ∃ items, d.Pooled items ∧ ∀ key, ∀ v ∈ (items key).map Prod.snd, Q key v

def Queued (used : Set (Bytes × ℕ)) (Foreign : Bytes → Prop) (d : Device K N BYTES) : Prop :=
  d.Waits fun _ v => Sealable K used Foreign v.packetType v.data

def Recorded (used : Set (Bytes × ℕ)) (d : Device K N BYTES) : Prop :=
  ∀ x ∈ d.world.sealed, x ∈ used

def Emits (K : Crypto) (used : Set (Bytes × ℕ)) (Foreign : Bytes → Prop)
    (outputs : List Output) : Prop :=
  ∀ packet addr, Output.udp packet addr ∈ outputs → Emitted K used Foreign packet

theorem Recorded.before (h : Recorded used d') (hmoves : Moves roams d d') : Recorded used d :=
  fun x hx => h x (hmoves.sealed_subset hx)

theorem Emits.nil : Emits K used Foreign [] := fun _ _ h => nomatch h

theorem Emits.append (h : Emits K used Foreign outputs) (h' : Emits K used Foreign outputs') :
    Emits K used Foreign (outputs ++ outputs') := by
  intro packet addr hmem
  rcases List.mem_append.mp hmem with hmem | hmem
  · exact h packet addr hmem
  · exact h' packet addr hmem

theorem Emits.single {packet : Bytes} (h : Emitted K used Foreign packet) (addr : SocketAddr) :
    Emits K used Foreign [.udp packet addr] := by
  intro packet' addr' hmem
  cases List.mem_singleton.mp hmem
  exact h

theorem Emits.pending {packet : Bytes} (h : Emitted K used Foreign packet)
    (endpoint : Option SocketAddr) :
    Emits K used Foreign (sendPendingPacket (endpoint.map (packet, ·))) := by
  cases endpoint with
  | none => exact .nil
  | some addr => exact .single h addr

theorem Waits.congr {Q : PublicKey → QueuedPacket → Prop} (h : d.Waits Q)
    (hqueue : d'.queueOf = d.queueOf) (hpool : d'.world.pool = d.world.pool) : d'.Waits Q := by
  obtain ⟨items, hpooled, hitems⟩ := h
  exact ⟨items, hpooled.congr hqueue hpool, hitems⟩

theorem Waits.setTunnel {Q : PublicKey → QueuedPacket → Prop} (h : d.Waits Q)
    (hpeer : d.peers.peerByKey key = some peer) {t : Tunn K} {w : World K N BYTES}
    {P : MessageType → Bytes → Prop} (hcall : Tunn.Queues P peer.tunnel d.world t w)
    (hP : ∀ v, P v.packetType v.data → Q key v) : (d.setTunnel key peer t w).Waits Q := by
  obtain ⟨items, hpooled, hitems⟩ := h
  obtain ⟨items', hpooled', -, hknown⟩ := hpooled.setTunnel hpeer hcall
  refine ⟨_, hpooled', fun k v hv => ?_⟩
  by_cases hk : k = key
  · subst hk
    rw [Function.update_self] at hv
    rcases hknown v hv with hold | hnew
    · exact hitems k v hold
    · exact hP v hnew
  · rw [Function.update_of_ne hk] at hv
    exact hitems k v hv

theorem Queued.setTunnel (h : Queued used Foreign d) (hpeer : d.peers.peerByKey key = some peer)
    {t : Tunn K} {w : World K N BYTES} {P : MessageType → Bytes → Prop}
    (hcall : Tunn.Queues P peer.tunnel d.world t w)
    (hP : ∀ packetType src, P packetType src → Sealable K used Foreign packetType src) :
    Queued used Foreign (d.setTunnel key peer t w) :=
  Waits.setTunnel h hpeer hcall fun v => hP v.packetType v.data

theorem formatted_of_writes {t : Tunn K} {w : World K N BYTES} {P : MessageType → Bytes → Prop}
    {packet : Bytes} (h : t.Writes w P (.writeToNetwork packet))
    (hrecorded : ∀ x ∈ w.sealed, x ∈ used)
    (hP : ∀ packetType src, P packetType src → Sealable K used Foreign packetType src) :
    Formatted K used Foreign packet := by
  rcases h packet rfl with hhandshaken | hcarries
  · exact .inl hhandshaken.announces
  · exact .inr (hcarries.mono hrecorded hP)

theorem dropExpiredLoop_waits {Q : PublicKey → QueuedPacket → Prop} {now dropped : ℕ}
    {keys : List PublicKey} (h : dropExpiredLoop now keys d = .ok (dropped, d'))
    (hwaits : d.Waits Q) : d'.Waits Q ∧ d'.world.sealed = d.world.sealed := by
  induction keys generalizing d dropped with
  | nil =>
    cases h
    exact ⟨hwaits, rfl⟩
  | cons key keys ih =>
    rw [dropExpiredLoop] at h
    cases hpeer : d.peers.peerByKey key with
    | none =>
      rw [hpeer] at h
      exact ih h hwaits
    | some peer =>
      rw [hpeer] at h
      obtain ⟨⟨n, t, w⟩, hcall, h⟩ := bind_ok_iff.mp h
      obtain ⟨⟨others, d₁⟩, hrest, h⟩ := bind_ok_iff.mp h
      cases h
      obtain ⟨hwaits', hsealed⟩ :=
        ih hrest (hwaits.setTunnel hpeer (Tunn.dropExpiredQueuedPackets_queues hcall)
          fun _ h => h.elim)
      obtain ⟨⟨n, q, pool⟩, -, hcall⟩ := bind_ok_iff.mp hcall
      cases hcall
      exact ⟨hwaits', hsealed⟩

theorem dropExpiredPacketQueues_waits {Q : PublicKey → QueuedPacket → Prop} {dropped : ℕ}
    (h : d.dropExpiredPacketQueues = .ok (dropped, d')) (hwaits : d.Waits Q) :
    d'.Waits Q ∧ d'.world.sealed = d.world.sealed :=
  dropExpiredLoop_waits (d := { d with world := d.world.now.2 }) h (hwaits.congr rfl rfl)

theorem dropExpiredLoop_total {Q : PublicKey → QueuedPacket → Prop} (now : ℕ)
    (keys : List PublicKey) (hwaits : d.Waits Q) :
    ∃ dropped d', dropExpiredLoop now keys d = .ok (dropped, d') := by
  induction keys generalizing d with
  | nil => exact ⟨_, _, rfl⟩
  | cons key keys ih =>
    rw [dropExpiredLoop]
    split
    · exact ih hwaits
    rename_i peer hpeer
    obtain ⟨items, hpooled, hitems⟩ := hwaits
    have hholds := hpooled.family.holds key
    rw [queueOf_of_peer hpeer] at hholds
    obtain ⟨dropped, t, w, hcall, -⟩ := Tunn.dropExpiredQueuedPackets_spec hpooled.wf hholds now
    have hwaits' : (d.setTunnel key peer t w).Waits Q :=
      Waits.setTunnel ⟨items, hpooled, hitems⟩ hpeer (Tunn.dropExpiredQueuedPackets_queues hcall)
        fun _ h => h.elim
    obtain ⟨others, d', hrest⟩ := ih hwaits'
    simp only [hcall, ok_bind, hrest, pure_eq_ok]
    exact ⟨_, _, rfl⟩

theorem dropExpiredPacketQueues_total {Q : PublicKey → QueuedPacket → Prop} (hwaits : d.Waits Q) :
    ∃ dropped d', d.dropExpiredPacketQueues = .ok (dropped, d') :=
  dropExpiredLoop_total (d := { d with world := d.world.now.2 }) _ _ (hwaits.congr rfl rfl)

theorem dropExpiredPacketQueues_queued {dropped : ℕ}
    (h : d.dropExpiredPacketQueues = .ok (dropped, d')) (hqueued : Queued used Foreign d) :
    Queued used Foreign d' := (dropExpiredPacketQueues_waits h hqueued).1

theorem preparePacketToPeerViaRelay_emits {destination relay : PublicKey} {packet : Bytes}
    {pending : Option PendingUdpSend}
    (h : d.preparePacketToPeerViaRelay destination relay packet = .ok (pending, d'))
    (hrecorded : Recorded used d') (hqueued : Queued used Foreign d)
    (hpacket : Formatted K used Foreign packet) :
    Queued used Foreign d' ∧ Emits K used Foreign (sendPendingPacket pending) := by
  rw [preparePacketToPeerViaRelay] at h
  split at h
  · cases h
    exact ⟨hqueued, .nil⟩
  rename_i envelope henvelope
  have hsealable := hpacket.wrap henvelope
  obtain ⟨⟨dropped, d₁⟩, hdrop, h⟩ := bind_ok_iff.mp h
  have hqueued₁ := dropExpiredPacketQueues_queued hdrop hqueued
  dsimp only at h
  split at h
  · cases h
    exact ⟨hqueued₁, .nil⟩
  rename_i relayPeer hpeer
  obtain ⟨⟨r, t, w⟩, hcall, h⟩ := bind_ok_iff.mp h
  have hqueued₂ : Queued used Foreign (d₁.setTunnel relay relayPeer t w) := by
    refine hqueued₁.setTunnel hpeer (Tunn.encapsulateWithType_queues hcall) ?_
    rintro _ _ ⟨rfl, rfl⟩
    exact hsealable
  cases r with
  | writeToNetwork sent =>
    cases h
    refine ⟨hqueued₂, .pending (.inl ?_) _⟩
    apply formatted_of_writes (Tunn.encapsulateWithType_writes hcall) hrecorded
    rintro _ _ ⟨rfl, rfl⟩
    exact hsealable
  | done | err =>
    cases h
    exact ⟨hqueued₂, .nil⟩
  | writeToInterfaceV4 | writeToInterfaceV6 => cases h

theorem preparePacketToPeer_emits {packet : Bytes} {pending : Option PendingUdpSend}
    (h : d.preparePacketToPeer key packet = .ok (pending, d')) (hrecorded : Recorded used d')
    (hqueued : Queued used Foreign d) (hpacket : Formatted K used Foreign packet) :
    Queued used Foreign d' ∧ Emits K used Foreign (sendPendingPacket pending) := by
  rw [preparePacketToPeer] at h
  split at h
  · cases h
    exact ⟨hqueued, .nil⟩
  split at h
  · exact preparePacketToPeerViaRelay_emits h hrecorded hqueued hpacket
  · cases h
    exact ⟨hqueued, .pending (.inl hpacket) _⟩

theorem handleTunPacket_emits {src : Bytes} (h : d.handleTunPacket src = .ok (outputs, d'))
    (hrecorded : Recorded used d') (hqueued : Queued used Foreign d) :
    Queued used Foreign d' ∧ Emits K used Foreign outputs := by
  rw [handleTunPacket] at h
  split at h
  · cases h
    exact ⟨hqueued, .nil⟩
  rename_i dstAddr haddr
  have hsealable : Sealable K used Foreign MessageType.data src :=
    .fromInterface (by rw [haddr]; exact Option.some_ne_none _)
  obtain ⟨route, -, h⟩ := bind_ok_iff.mp h
  cases route with
  | none =>
    cases h
    exact ⟨hqueued, .nil⟩
  | some publicKey =>
    obtain ⟨⟨dropped, d₁⟩, hdrop, h⟩ := bind_ok_iff.mp h
    have hqueued₁ := dropExpiredPacketQueues_queued hdrop hqueued
    dsimp only at h
    split at h
    · cases h
      exact ⟨hqueued₁, .nil⟩
    rename_i peer hpeer
    obtain ⟨⟨r, t, w⟩, hcall, h⟩ := bind_ok_iff.mp h
    have hqueued₂ : Queued used Foreign (d₁.setTunnel publicKey peer t w) := by
      refine hqueued₁.setTunnel hpeer (Tunn.encapsulateWithType_queues hcall) ?_
      rintro _ _ ⟨rfl, rfl⟩
      exact hsealable
    cases r with
    | done | err =>
      cases h
      exact ⟨hqueued₂, .nil⟩
    | writeToNetwork packet =>
      obtain ⟨⟨pending, d₂⟩, hprepare, h⟩ := bind_ok_iff.mp h
      cases h
      have hmoves : Moves True (d₁.setTunnel publicKey peer t w) d₂ :=
        preparePacketToPeer_moves hprepare
      apply preparePacketToPeer_emits hprepare hrecorded hqueued₂
      apply formatted_of_writes (Tunn.encapsulateWithType_writes hcall) (hrecorded.before hmoves)
      rintro _ _ ⟨rfl, rfl⟩
      exact hsealable
    | writeToInterfaceV4 | writeToInterfaceV6 => cases h

theorem forwardEnvelope_emits {plaintext : Bytes}
    (h : d.forwardEnvelope key plaintext = .ok (outputs, d')) (hrecorded : Recorded used d')
    (hqueued : Queued used Foreign d) (hauthored : Authored K used Foreign plaintext) :
    Queued used Foreign d' ∧ Emits K used Foreign outputs := by
  rw [forwardEnvelope] at h
  split at h
  · cases h
    exact ⟨hqueued, .nil⟩
  rename_i envelope hparse
  split at h
  · cases h
    exact ⟨hqueued, .nil⟩
  dsimp only at h
  split at h
  · cases h
    exact ⟨hqueued, .nil⟩
  split at h
  · rename_i nextRelayKey hnext
    obtain ⟨⟨dropped, d₁⟩, hdrop, h⟩ := bind_ok_iff.mp h
    have hqueued₁ := dropExpiredPacketQueues_queued hdrop hqueued
    dsimp only at h
    split at h
    · cases h
      exact ⟨hqueued₁, .nil⟩
    rename_i relayPeer hpeer
    split at h
    · cases h
      exact ⟨hqueued₁, .nil⟩
    rename_i next hdecrement
    have hsealable := hauthored.forward hparse hdecrement
    obtain ⟨⟨r, t, w⟩, hcall, h⟩ := bind_ok_iff.mp h
    have hqueued₂ : Queued used Foreign (d₁.setTunnel nextRelayKey relayPeer t w) := by
      refine hqueued₁.setTunnel hpeer (Tunn.encapsulateWithType_queues hcall) ?_
      rintro _ _ ⟨rfl, rfl⟩
      exact hsealable
    cases r with
    | writeToNetwork sent =>
      cases h
      refine ⟨hqueued₂, .pending (.inl ?_) _⟩
      apply formatted_of_writes (Tunn.encapsulateWithType_writes hcall) hrecorded
      rintro _ _ ⟨rfl, rfl⟩
      exact hsealable
    | done | err =>
      cases h
      exact ⟨hqueued₂, .nil⟩
    | writeToInterfaceV4 | writeToInterfaceV6 => cases h
  · cases h
    exact ⟨hqueued, .single (hauthored.inner hparse) _⟩
  · cases h
    exact ⟨hqueued, .nil⟩

theorem flushQueuedPackets_emits {fuel : ℕ}
    (h : flushQueuedPackets key fuel d = .ok (outputs, d')) (hrecorded : Recorded used d')
    (hqueued : Queued used Foreign d) :
    Queued used Foreign d' ∧ Emits K used Foreign outputs := by
  induction fuel generalizing d outputs with
  | zero =>
    cases h
    exact ⟨hqueued, .nil⟩
  | succ fuel ih =>
    rw [flushQueuedPackets] at h
    split at h
    · cases h
      exact ⟨hqueued, .nil⟩
    rename_i peer hpeer
    obtain ⟨⟨r, t, w⟩, hcall, h⟩ := bind_ok_iff.mp h
    have hqueued₁ : Queued used Foreign (d.setTunnel key peer t w) :=
      hqueued.setTunnel hpeer (Tunn.flushQueuedPacket_queues hcall) fun _ _ h => h.elim
    cases r with
    | writeToNetwork packet =>
      obtain ⟨⟨pending, d₁⟩, hprepare, h⟩ := bind_ok_iff.mp h
      obtain ⟨⟨rest, d₂⟩, hrest, h⟩ := bind_ok_iff.mp h
      cases h
      have hfirst : Moves True (d.setTunnel key peer t w) d₁ := preparePacketToPeer_moves hprepare
      have hlast : Moves True d₁ d' := flushQueuedPackets_moves hrest
      have hrecorded₁ := hrecorded.before hlast
      -- What is flushed waited in the queue.
      have hpacket : Formatted K used Foreign packet := by
        obtain ⟨items, hpooled, hitems⟩ := hqueued
        have hholds := hpooled.family.holds key
        rw [queueOf_of_peer hpeer] at hholds
        exact formatted_of_writes
          (Tunn.flushQueuedPacket_writes hpooled.wf hholds (hitems key) hcall)
          (hrecorded₁.before hfirst) fun _ _ => id
      obtain ⟨hqueued₂, hsent⟩ := preparePacketToPeer_emits hprepare hrecorded₁ hqueued₁ hpacket
      obtain ⟨hqueued₃, hothers⟩ := ih hrest hqueued₂
      exact ⟨hqueued₃, hsent.append hothers⟩
    | done | err | writeToInterfaceV4 | writeToInterfaceV6 =>
      cases h
      exact ⟨hqueued₁, .nil⟩

theorem finishUdpPacket_emits {r : TunnResult}
    (h : d.finishUdpPacket key peer r = .ok (outputs, d')) (hrecorded : Recorded used d')
    (hqueued : Queued used Foreign d)
    (hpacket : ∀ packet, r = .writeToNetwork packet → Formatted K used Foreign packet) :
    Queued used Foreign d' ∧ Emits K used Foreign outputs := by
  cases r with
  | done | err =>
    cases h
    exact ⟨hqueued, .nil⟩
  | writeToNetwork packet =>
    obtain ⟨⟨pending, d₁⟩, hprepare, h⟩ := bind_ok_iff.mp h
    obtain ⟨⟨rest, d₂⟩, hrest, h⟩ := bind_ok_iff.mp h
    cases h
    have hmoves : Moves True d₁ d' := flushQueuedPackets_moves hrest
    obtain ⟨hqueued₁, hsent⟩ :=
      preparePacketToPeer_emits hprepare (hrecorded.before hmoves) hqueued (hpacket packet rfl)
    obtain ⟨hqueued₂, hothers⟩ := flushQueuedPackets_emits hrest hrecorded hqueued₁
    exact ⟨hqueued₂, hsent.append hothers⟩
  | writeToInterfaceV4 packet addr | writeToInterfaceV6 packet addr =>
    obtain ⟨allowed, -, h⟩ := bind_ok_iff.mp h
    cases h
    refine ⟨hqueued, fun sent addr hmem => ?_⟩
    split at hmem
    · cases List.mem_singleton.mp hmem
    · cases hmem

def opens (d : Device K N BYTES) : Packet → Option Bytes
  | .relayData p => do
    let peerKey ← d.peers.peerKeyByIndex p.receiverIdx
    let peer ← d.peers.peerByKey peerKey
    match peer.tunnel.handleVerifiedRelayPacket (.relayData p) maxPacketSize with
    | .ok (.ok plaintext, _) => some plaintext
    | _ => none
  | _ => none

/-- All relay plaintexts that the event opens were made by devices of the network, or are foreign. -/
def OpensAuthored (used : Set (Bytes × ℕ)) (Foreign : Bytes → Prop) (d : Device K N BYTES) :
    Event → Prop
  | .udpPacket datagram _ _ => ∀ packet plaintext, parseIncomingPacket datagram = .ok packet →
      d.opens packet = some plaintext → Authored K used Foreign plaintext
  | _ => True

theorem opens_of_queuesOnly {p : Data} {peer₁ : Peer K} {plaintext : Bytes} {t : Tunn K}
    (hkey : d.peers.peerKeyByIndex p.receiverIdx = some key) (hqueues : QueuesOnly d d')
    (hpeer : d'.peers.peerByKey key = some peer₁)
    (hcall : peer₁.tunnel.handleVerifiedRelayPacket (.relayData p) maxPacketSize =
      .ok (.ok plaintext, t)) : d.opens (.relayData p) = some plaintext := by
  obtain ⟨peer, q, hpeer₀, rfl⟩ := hqueues key peer₁ hpeer
  obtain ⟨s, s', hs, hreceive, -⟩ := Tunn.decryptRawData_ok hcall
  have hs₀ : peer.tunnel.sessions (slotOf p.receiverIdx) = some s := hs
  simp only [opens, hkey, hpeer₀, Option.bind_eq_bind, Option.bind_some,
    Tunn.handleVerifiedRelayPacket, Tunn.decryptRawData, hs₀, hreceive, ok_bind, pure_eq_ok]

theorem setEndpoint_queueOf (hpeer : d.peers.peerByKey key = some peer) (addr : SocketAddr) :
    (d.setEndpoint key peer addr).queueOf = d.queueOf := by
  funext k
  by_cases hk : k = key
  · subst hk
    rw [queueOf_of_peer hpeer]
    exact congrArg queueIn (Bounded.lookup_replace_self _ (Bounded.mem_of_lookup hpeer))
  · exact congrArg queueIn (Bounded.lookup_replace_ne _ hk)

theorem handleAttributedPacket_emits {src : SocketAddr} {packet : Packet}
    (h : d.handleAttributedPacket key src packet = .ok (outputs, d'))
    (hrecorded : Recorded used d') (hqueued : Queued used Foreign d)
    (hopens : ∀ p peer plaintext t, packet = .relayData p → d.peers.peerByKey key = some peer →
      peer.tunnel.handleVerifiedRelayPacket (.relayData p) maxPacketSize = .ok (.ok plaintext, t) →
      Authored K used Foreign plaintext) :
    Queued used Foreign d' ∧ Emits K used Foreign outputs := by
  rw [handleAttributedPacket] at h
  split at h
  · cases h
    exact ⟨hqueued, .nil⟩
  rename_i peer hpeer
  split at h
  · rename_i p
    obtain ⟨⟨r, t⟩, hcall, h⟩ := bind_ok_iff.mp h
    have hqueued₁ : Queued used Foreign (d.setTunnel key peer t d.world) :=
      hqueued.setTunnel hpeer
        ((Tunn.handleVerifiedRelayPacket_sameQueue hcall _).queues fun _ _ => False)
        fun _ _ h => h.elim
    cases r with
    | error e =>
      cases h
      exact ⟨hqueued₁, .nil⟩
    | ok plaintext =>
      exact forwardEnvelope_emits h hrecorded hqueued₁ (hopens p peer plaintext t rfl hpeer hcall)
  · obtain ⟨⟨r, t, w⟩, hcall, h⟩ := bind_ok_iff.mp h
    have hqueued₁ : Queued used Foreign (d.setTunnel key peer t w) :=
      hqueued.setTunnel hpeer
        ((Tunn.handleVerifiedPacket_sameQueue hcall).queues fun _ _ => False) fun _ _ h => h.elim
    -- Whether or not the endpoint moves, nothing is sealed before the answer is sent.
    have hfinish : ∀ d₁ : Device K N BYTES, d₁.queueOf = (d.setTunnel key peer t w).queueOf →
        d₁.world = w → d₁.finishUdpPacket key { peer with tunnel := t } r = .ok (outputs, d') →
        Queued used Foreign d' ∧ Emits K used Foreign outputs := by
      intro d₁ hqueue hworld hfinish
      have hmoves : Moves True d₁ d' := finishUdpPacket_moves hfinish
      have hrecorded₁ : ∀ x ∈ w.sealed, x ∈ used := hworld ▸ hrecorded.before hmoves
      apply finishUdpPacket_emits hfinish hrecorded
        (hqueued₁.congr hqueue (congrArg World.pool hworld))
      rintro packet rfl
      apply formatted_of_writes (Tunn.handleVerifiedPacket_writes hcall) hrecorded₁
      rintro _ _ ⟨rfl, rfl⟩
      exact .keepalive
    dsimp only at h
    split at h
    · exact hfinish _ (setEndpoint_queueOf (setTunnel_peerByKey hpeer t w) src) rfl h
    · exact hfinish _ rfl rfl h

theorem verifyPacket_writes {l : RateLimiter} {src : Option IpAddr} {datagram packet : Bytes}
    {dstLen : ℕ} {w : World K N BYTES}
    (h : (l.verifyPacket src datagram dstLen w).1 = .error (.writeToNetwork packet)) :
    AnnouncesHandshake packet := by
  have hverdict := l.verifyPacket_verdict src datagram dstLen w
  generalize l.verifyPacket src datagram dstLen w = r at h hverdict
  cases hverdict with
  | answered _ _ _ _ reply =>
    cases h
    rw [RateLimiter.formatCookieReply] at reply
    split at reply
    · cases reply
    · cases reply
      simp only [List.append_assoc]
      rw [AnnouncesHandshake, messageTypeOf_append (by decide)]
      decide
  | malformed | unlimited | invalidMac | idle | unaddressed | authenticated | refused => cases h

theorem handleUdpPacket_emits {datagram : Bytes} {src : SocketAddr}
    (h : d.handleUdpPacket datagram src = .ok (outputs, d')) (hrecorded : Recorded used d')
    (hqueued : Queued used Foreign d)
    (hopens : ∀ packet plaintext, parseIncomingPacket datagram = .ok packet →
      d.opens packet = some plaintext → Authored K used Foreign plaintext) :
    Queued used Foreign d' ∧ Emits K used Foreign outputs := by
  have hpool := d.rateLimiter.verifyPacket_pool (some src.ip) datagram maxPacketSize d.world
  rw [handleUdpPacket] at h
  dsimp only at h
  split at h
  · rename_i cookie hverified
    cases h
    exact ⟨hqueued.congr rfl hpool, .single (.inl (.inl (verifyPacket_writes hverified))) _⟩
  · cases h
    exact ⟨hqueued.congr rfl hpool, .nil⟩
  · rename_i packet hverified
    obtain ⟨peerKey, hkey, h⟩ := bind_ok_iff.mp h
    cases peerKey with
    | none =>
      cases h
      exact ⟨hqueued.congr rfl hpool, .nil⟩
    | some peerKey =>
      obtain ⟨⟨dropped, d₁⟩, hdrop, h⟩ := bind_ok_iff.mp h
      apply handleAttributedPacket_emits h hrecorded
        (dropExpiredPacketQueues_queued hdrop (hqueued.congr rfl hpool))
      rintro p peer plaintext t rfl hpeer hcall
      have hqueues := dropExpiredPacketQueues_queuesOnly hdrop
      exact hopens (.relayData p) plaintext (RateLimiter.verifyPacket_ok hverified)
        (opens_of_queuesOnly (d := d) (Except.ok.inj hkey) hqueues hpeer hcall)

theorem handleUdpPacket_transport {datagram : Bytes} {addr : SocketAddr} {packet : Packet} {p : Data}
    (hparse : parseIncomingPacket datagram = .ok packet)
    (hpacket : packet = .data p ∨ packet = .relayData p)
    (h : d.handleUdpPacket datagram addr = .ok (outputs, d')) :
    (outputs = [] ∧ d' = d) ∨ ∃ key dropped d₁, d.peers.peerKeyByIndex p.receiverIdx = some key ∧
      d.dropExpiredPacketQueues = .ok (dropped, d₁) ∧
      d₁.handleAttributedPacket key addr packet = .ok (outputs, d') := by
  have hsender : RateLimiter.handshakeSender packet = none := by
    rcases hpacket with rfl | rfl
    · rfl
    · rfl
  have hverify : d.rateLimiter.verifyPacket (some addr.ip) datagram maxPacketSize d.world =
      (.ok packet, d.rateLimiter, d.world) := RateLimiter.verifyPacket_unlimited hparse hsender
  have hattributed : d.peerKeyOf packet = .ok (d.peers.peerKeyByIndex p.receiverIdx) := by
    rcases hpacket with rfl | rfl
    · rfl
    · rfl
  rw [handleUdpPacket, hverify] at h
  simp only [hattributed, ok_bind] at h
  cases hkey : d.peers.peerKeyByIndex p.receiverIdx with
  | none =>
    rw [hkey] at h
    cases h
    exact .inl ⟨rfl, rfl⟩
  | some key =>
    rw [hkey] at h
    obtain ⟨⟨dropped, d₁⟩, hdrop, h⟩ := bind_ok_iff.mp h
    exact .inr ⟨key, dropped, d₁, rfl, hdrop, h⟩

theorem timerLoop_emits {keys : List PublicKey} (h : timerLoop keys d = .ok (outputs, d'))
    (hrecorded : Recorded used d') (hqueued : Queued used Foreign d) :
    Queued used Foreign d' ∧ Emits K used Foreign outputs := by
  induction keys generalizing d outputs with
  | nil =>
    cases h
    exact ⟨hqueued, .nil⟩
  | cons key keys ih =>
    obtain ⟨⟨dropped, d₁⟩, hdrop, h⟩ := bind_ok_iff.mp h
    have hqueued₁ := dropExpiredPacketQueues_queued hdrop hqueued
    dsimp only at h
    split at h
    · exact ih h hqueued₁
    rename_i peer hpeer
    obtain ⟨⟨r, t, w⟩, hcall, h⟩ := bind_ok_iff.mp h
    have hqueued₂ : Queued used Foreign (d₁.setTunnel key peer t w) := by
      refine hqueued₁.setTunnel hpeer (Tunn.updateTimers_queues hcall) ?_
      rintro _ _ ⟨rfl, rfl⟩
      exact .keepalive
    cases r with
    | done | err => exact ih h hqueued₂
    | writeToNetwork packet =>
      obtain ⟨⟨pending, d₂⟩, hprepare, h⟩ := bind_ok_iff.mp h
      obtain ⟨⟨rest, d₃⟩, hrest, h⟩ := bind_ok_iff.mp h
      cases h
      have hfirst : Moves True (d₁.setTunnel key peer t w) d₂ := preparePacketToPeer_moves hprepare
      have hlast : Moves True d₂ d₃ := timerLoop_moves hrest
      have hrecorded₂ := hrecorded.before hlast
      have hpacket : Formatted K used Foreign packet := by
        apply formatted_of_writes (Tunn.updateTimers_writes hcall) (hrecorded₂.before hfirst)
        rintro _ _ ⟨rfl, rfl⟩
        exact .keepalive
      obtain ⟨hqueued₃, hsent⟩ := preparePacketToPeer_emits hprepare hrecorded₂ hqueued₂ hpacket
      obtain ⟨hqueued₄, hothers⟩ := ih hrest hqueued₃
      exact ⟨hqueued₄, hsent.append hothers⟩
    | writeToInterfaceV4 | writeToInterfaceV6 => cases h

theorem tick_emits {order : List PublicKey} (h : d.tick order = .ok (outputs, d'))
    (hrecorded : Recorded used d') (hqueued : Queued used Foreign d) :
    Queued used Foreign d' ∧ Emits K used Foreign outputs := by
  obtain ⟨⟨sent, d₁⟩, hticks, h⟩ := bind_ok_iff.mp h
  have hreset := d₁.rateLimiter.resetCount_world d₁.world
  have hpool := congrArg World.pool hreset
  have hsealed := congrArg World.sealed hreset
  -- Resetting the rate limiter only reads the clock.
  have hend : sent = outputs ∧ d₁.queueOf = d'.queueOf ∧ d'.world.pool = d₁.world.pool ∧
      d'.world.sealed = d₁.world.sealed := by
    dsimp only at h
    split at h
    · cases h
      exact ⟨rfl, rfl, hpool, hsealed⟩
    · cases h
      exact ⟨rfl, rfl, rfl, rfl⟩
  obtain ⟨rfl, hqueue, hpool, hsealed⟩ := hend
  have hrecorded₁ : Recorded used d₁ := fun x hx => hrecorded x (hsealed ▸ hx)
  obtain ⟨hqueued₁, hsent⟩ := timerLoop_emits hticks hrecorded₁ hqueued
  exact ⟨hqueued₁.congr hqueue.symm hpool, hsent⟩

theorem handlePeerUpdate_waits {Q : PublicKey → QueuedPacket → Prop} {c : Command}
    {completion : CommandCompletion} (h : d.handlePeerUpdate c = .ok (completion, d'))
    (hwaits : d.Waits Q) : d'.Waits Q := by
  obtain ⟨hpool, ⟨key, -, hqueue⟩ | ⟨-, hqueue⟩⟩ := handlePeerUpdate_queues h
  · obtain ⟨items, hpooled, hitems⟩ := hwaits
    refine ⟨_, hpooled.remove hqueue hpool, fun k v hv => ?_⟩
    by_cases hk : k = key
    · rw [hk, Function.update_self] at hv
      cases hv
    · rw [Function.update_of_ne hk] at hv
      exact hitems k v hv
  · exact hwaits.congr hqueue hpool

theorem Waits.reorder {Q : PublicKey → QueuedPacket → Prop} (h : d.Waits Q) (order : List PublicKey) :
    Waits Q { d with peers := { d.peers with peers := Bounded.reorder order d.peers.peers } } :=
  h.congr (funext fun key => congrArg queueIn (Bounded.lookup_reorder order d.peers.peers key)) rfl

theorem step_emits {e : Event} (h : d.step e = .ok (outputs, d')) (hrecorded : Recorded used d')
    (hqueued : Queued used Foreign d) (hopens : OpensAuthored used Foreign d e) :
    Queued used Foreign d' ∧ Emits K used Foreign outputs := by
  cases e with
  | tunPacket packet fits => exact handleTunPacket_emits h hrecorded hqueued
  | udpPacket datagram fits src => exact handleUdpPacket_emits h hrecorded hqueued hopens
  | tick order => exact tick_emits h hrecorded hqueued
  | command c =>
    obtain ⟨⟨completion, d₁⟩, hcall, h⟩ := bind_ok_iff.mp h
    cases h
    refine ⟨handlePeerUpdate_waits hcall hqueued, fun packet addr hmem => ?_⟩
    cases List.mem_singleton.mp hmem
  | reorder order =>
    cases h
    exact ⟨Waits.reorder hqueued order, .nil⟩

/-! ### Runs -/

theorem handlePeerUpdate_sealed {c : Command} {completion : CommandCompletion}
    (h : d.handlePeerUpdate c = .ok (completion, d')) : d'.world.sealed = d.world.sealed := by
  cases handlePeerUpdate_cases h with
  | none | update | remove | unknown | list => rfl
  | add call =>
    rcases addPeerToState_ok call with ⟨-, -, ⟨-, rfl⟩ | ⟨-, rfl⟩⟩ | ⟨-, -, rfl, -⟩
    · rfl
    · rfl
    · rfl
  | get call =>
    obtain ⟨⟨since, w₁⟩, hsince, hstats⟩ := bind_ok_iff.mp call
    cases hstats
    rw [Tunn.timeSinceLastHandshake] at hsince
    split at hsince
    · dsimp only at hsince
      split at hsince
      · cases hsince
      · cases hsince
        rfl
    · cases hsince
      rfl

theorem step_sealed_subset {e : Event} (h : d.step e = .ok (outputs, d')) :
    d.world.sealed ⊆ d'.world.sealed := by
  rcases step_cases h with ⟨c, completion, -, hcall, -⟩ | ⟨order, -, rfl⟩ | hmoves
  · rw [handlePeerUpdate_sealed hcall]
    exact List.Subset.refl _
  · exact List.Subset.refl _
  · exact hmoves.sealed_subset

theorem run_sealed_subset {events : List Event} {outputs : List (List Output)}
    (hrun : Machine.run step d events = .ok (outputs, d')) :
    d.world.sealed ⊆ d'.world.sealed := by
  induction events generalizing d outputs with
  | nil =>
    cases hrun
    exact List.Subset.refl _
  | cons e events ih =>
    obtain ⟨sent, d₁, rest, hstep, hrest, -⟩ := Machine.run_cons_ok.mp hrun
    exact List.Subset.trans (step_sealed_subset hstep) (ih hrest)

theorem run_emits {events : List Event} {outputs : List (List Output)}
    (hrun : Machine.run step d events = .ok (outputs, d')) (hrecorded : Recorded used d')
    (hqueued : Queued used Foreign d)
    (hopens : Machine.Along step (OpensAuthored used Foreign) d events) :
    Emits K used Foreign outputs.flatten := by
  induction events generalizing d outputs with
  | nil =>
    cases hrun
    exact .nil
  | cons e events ih =>
    obtain ⟨sent, d₁, rest, hstep, hrest, rfl⟩ := Machine.run_cons_ok.mp hrun
    rw [Machine.Along, hstep] at hopens
    have hrecorded₁ : Recorded used d₁ := fun x hx => hrecorded x (run_sealed_subset hrest hx)
    obtain ⟨hqueued₁, hsent⟩ := step_emits hstep hrecorded₁ hqueued hopens.1
    rw [List.flatten_cons]
    exact hsent.append (ih hrest hqueued₁ hopens.2)

theorem new_queued {profile : Profile} {config : Config K} {resources : Resources} {draws : Draws}
    {clock : ℕ → ℕ} {secrets : ℕ → K.Secret}
    (h : new profile config resources draws clock secrets = .ok (.ok d)) :
    Queued used Foreign d :=
  ⟨fun _ => [], (new_pooled h).1, fun _ _ hv => nomatch hv⟩

end Device

end Tendrilix
