import Tendrilix.Device.RelayQueue
import Tendrilix.Device.Sealing

/-!
# The message type is not under the seal

An adversary can rewrite the type of a data packet. The plaintexts of the two types differ in their
first byte, so that a device has no use for a packet that arrives under the other type.
-/

namespace Tendrilix

open Noise

variable {K : Crypto} {N BYTES : ℕ}

def WellTyped (packetType : MessageType) (src : Bytes) : Prop :=
  packetType = MessageType.data ∧
      (src = [] ∨ IpPacket.version src = 4 ∨ IpPacket.version src = 6) ∨
    packetType = MessageType.relayData ∧ src.head? = some Relay.envelopeVersion

theorem Sealable.wellTyped {used : Set (Bytes × ℕ)} {Foreign : Bytes → Prop}
    {packetType : MessageType} {src : Bytes} (h : Sealable K used Foreign packetType src) :
    WellTyped packetType src := by
  have hforwarded : ∀ {plaintext : Bytes} {e e' : Relay.Envelope},
      Relay.Envelope.parse plaintext = .ok e → e.decrementHopLimit = .ok e' →
      e'.bytes.head? = some Relay.envelopeVersion := by
    intro plaintext e e' hparse hdecrement
    obtain ⟨hbytes, -, hversion, -⟩ := Relay.Envelope.parse_ok hparse
    obtain ⟨-, hset, -⟩ := Relay.Envelope.decrementHopLimit_ok hdecrement
    rw [hset, hbytes]
    cases plaintext with
    | nil => cases hparse
    | cons b bs => exact congrArg some hversion
  cases h with
  | keepalive => exact .inl ⟨rfl, .inl rfl⟩
  | fromInterface addressed => exact .inl ⟨rfl, .inr (IpPacket.version_of_address addressed)⟩
  | wrapHandshake _ built | wrap _ _ _ built =>
    rw [(Relay.buildEnvelope_ok built).2]
    exact .inr ⟨rfl, rfl⟩
  | forward _ parsed decremented | forwardForeign _ parsed decremented =>
    exact .inr ⟨rfl, hforwarded parsed decremented⟩

/-! ### The other type -/

def retype (packet : Bytes) : Bytes :=
  Bytes.toLe 4 (if messageTypeOf packet = MessageType.data then MessageType.relayData
    else MessageType.data) ++ packet.drop 4

theorem retype_datagram (s : Session) {packetType : MessageType} (src : Bytes)
    (h : packetType < 256 ^ 4) :
    retype (s.datagram K packetType src) =
      s.datagram K (if packetType = MessageType.data then MessageType.relayData
        else MessageType.data) src := by
  have htag := Bytes.length_toLe 4 packetType
  rw [retype, messageTypeOf_datagram s src h]
  simp only [Session.datagram, List.append_assoc]
  rw [List.drop_left' htag]

theorem Noise.Tunn.validateDecapsulatedPacket_envelope (t : Tunn K) {plaintext : Bytes}
    (h : plaintext.head? = some Relay.envelopeVersion) :
    (t.validateDecapsulatedPacket plaintext).1 = .err .invalidPacket := by
  cases plaintext with
  | nil => cases h
  | cons b bs =>
    obtain rfl : b = Relay.envelopeVersion := Option.some.inj h
    have hversion : IpPacket.version (Relay.envelopeVersion :: bs) = 0 := rfl
    have haddr : IpPacket.srcAddress (Relay.envelopeVersion :: bs) = none := by
      rw [IpPacket.srcAddress, IpPacket.address, hversion]
      simp
    rw [Tunn.validateDecapsulatedPacket, if_neg (List.cons_ne_nil _ _), haddr]

theorem parse_data {src : Bytes} {e : Relay.Envelope}
    (h : src = [] ∨ IpPacket.version src = 4 ∨ IpPacket.version src = 6) :
    Relay.Envelope.parse (Session.padded src) ≠ .ok e := by
  intro hparse
  have hversion := Relay.Envelope.version_of_parse hparse
  by_cases hne : src = []
  · subst hne
    cases hparse
  · rw [Session.padded, IpPacket.version_append hne] at hversion
    rcases h with hnil | hip
    · exact hne hnil
    · omega

namespace Noise.Tunn

variable {t t' : Tunn K} {w w' : World K N BYTES} {s : Session} {src : Bytes} {r : TunnResult}

def Shares (t : Tunn K) (s : Session) (src : Bytes) : Prop :=
  ∀ r, t.sessions (slotOf (s.dataOf K src).receiverIdx) = some r → r.receivingKey = s.sendingKey

theorem decryptRawData_sealed (hK : K.Lawful) (hshares : t.Shares s src) {plaintext : Bytes}
    {dstLen : ℕ} (call : t.decryptRawData (s.dataOf K src) dstLen = .ok (.ok plaintext, t')) :
    plaintext = Session.padded src := by
  obtain ⟨r, r', hr, hreceive, -⟩ := decryptRawData_ok call
  exact Session.receivePacketData_sealed hK (hshares r hr) hreceive

theorem handleVerifiedPacket_retyped (hK : K.Lawful) (hshares : t.Shares s src) {dstLen : ℕ}
    (hsrc : src.head? = some Relay.envelopeVersion)
    (call : t.handleVerifiedPacket (.data (s.dataOf K src)) dstLen w = .ok (r, t', w')) :
    (∃ e, r = .err e) ∧ w' = w := by
  cases handleVerifiedPacket_cases call with
  | reject hdecrypt => exact ⟨⟨_, rfl⟩, rfl⟩
  | @receive _ plaintext t₁ _ _ hdecrypt hvalid =>
    have hplain := decryptRawData_sealed hK hshares hdecrypt
    have hhead : plaintext.head? = some Relay.envelopeVersion := by
      rw [hplain, Session.padded, List.head?_append, hsrc]
      rfl
    have hanswer := congrArg Prod.fst hvalid
    rw [validateDecapsulatedPacket_envelope t₁ hhead] at hanswer
    exact ⟨⟨_, hanswer.symm⟩, rfl⟩

end Noise.Tunn

namespace Device

variable {d d' : Device K N BYTES} {outputs : List Output} {s : Session} {src : Bytes}

/-- Nothing is sent or delivered, nothing is sealed, and nothing joins a queue. -/
structure Ignored (d : Device K N BYTES) (outputs : List Output) (d' : Device K N BYTES) :
    Prop where
  silent : outputs = []
  unsealed : d'.world.sealed = d.world.sealed
  waiting : ∀ key, d'.waiting key ⊆ d.waiting key

theorem Waits.waiting {Q : PublicKey → QueuedPacket → Prop} (h : d.Waits Q) {key : PublicKey}
    {v : QueuedPacket} (hv : v ∈ d.waiting key) : Q key v := by
  obtain ⟨items, hpooled, hitems⟩ := h
  rw [hpooled.waiting key] at hv
  exact hitems key v hv

def Shares (d : Device K N BYTES) (s : Session) (src : Bytes) : Prop :=
  ∀ key peer, d.peers.peerKeyByIndex (s.dataOf K src).receiverIdx = some key →
    d.peers.peerByKey key = some peer → peer.tunnel.Shares s src

theorem handleAttributedPacket_retyped (hK : K.Lawful) {packetType : MessageType}
    (htyped : WellTyped packetType src) {key : PublicKey} {addr : SocketAddr} {packet : Packet}
    (hpacket : packetType = MessageType.relayData ∧ packet = .data (s.dataOf K src) ∨
      packetType = MessageType.data ∧ packet = .relayData (s.dataOf K src))
    (hshares : ∀ peer, d.peers.peerByKey key = some peer → peer.tunnel.Shares s src)
    (h : d.handleAttributedPacket key addr packet = .ok (outputs, d'))
    {Q : PublicKey → QueuedPacket → Prop} (hwaits : d.Waits Q) :
    outputs = [] ∧ d'.world.sealed = d.world.sealed ∧ d'.Waits Q := by
  rw [handleAttributedPacket] at h
  split at h
  · cases h
    exact ⟨rfl, rfl, hwaits⟩
  rename_i peer hpeer
  have htunnel := hshares peer hpeer
  rcases hpacket with ⟨rfl, rfl⟩ | ⟨rfl, rfl⟩
  · have hsrc : src.head? = some Relay.envelopeVersion := by
      rcases htyped with ⟨hdata, -⟩ | ⟨-, hsrc⟩
      · exact absurd hdata (by decide)
      · exact hsrc
    obtain ⟨⟨r, t, w⟩, hcall, h⟩ := bind_ok_iff.mp h
    have hwaits₁ : (d.setTunnel key peer t w).Waits Q :=
      hwaits.setTunnel hpeer
        ((Tunn.handleVerifiedPacket_sameQueue hcall).queues fun _ _ => False) fun _ h => h.elim
    obtain ⟨⟨e, rfl⟩, rfl⟩ := Tunn.handleVerifiedPacket_retyped hK htunnel hsrc hcall
    cases h
    exact ⟨rfl, rfl, hwaits₁⟩
  · have hsrc : src = [] ∨ IpPacket.version src = 4 ∨ IpPacket.version src = 6 := by
      rcases htyped with ⟨-, hsrc⟩ | ⟨hrelay, -⟩
      · exact hsrc
      · exact absurd hrelay (by decide)
    obtain ⟨⟨r, t⟩, hcall, h⟩ := bind_ok_iff.mp h
    have hwaits₁ : (d.setTunnel key peer t d.world).Waits Q :=
      hwaits.setTunnel hpeer
        ((Tunn.handleVerifiedRelayPacket_sameQueue hcall _).queues fun _ _ => False)
        fun _ h => h.elim
    cases r with
    | error e =>
      cases h
      exact ⟨rfl, rfl, hwaits₁⟩
    | ok plaintext =>
      rw [Tunn.decryptRawData_sealed hK htunnel hcall] at h
      simp only [forwardEnvelope] at h
      split at h
      · cases h
        exact ⟨rfl, rfl, hwaits₁⟩
      · rename_i envelope hparse
        exact absurd hparse (parse_data hsrc)

theorem step_retyped (hK : K.Lawful) {packetType : MessageType} (htyped : WellTyped packetType src)
    (hcounter : s.sendingKeyCounter < rejectAfterMessages)
    {items : PublicKey → List (ℕ × QueuedPacket)} (hpooled : d.Pooled items)
    (hshares : d.Shares s src) {fits : (retype (s.datagram K packetType src)).length ≤ maxPacketSize}
    {addr : SocketAddr}
    (h : d.step (.udpPacket (retype (s.datagram K packetType src)) fits addr) =
      .ok (outputs, d')) : d.Ignored outputs d' := by
  obtain ⟨packet, hparse, hkinds, hpacket⟩ : ∃ packet,
      parseIncomingPacket (retype (s.datagram K packetType src)) = .ok packet ∧
      (packet = .data (s.dataOf K src) ∨ packet = .relayData (s.dataOf K src)) ∧
      (packetType = MessageType.relayData ∧ packet = .data (s.dataOf K src) ∨
        packetType = MessageType.data ∧ packet = .relayData (s.dataOf K src)) := by
    rcases htyped with ⟨rfl, -⟩ | ⟨rfl, -⟩
    · refine ⟨_, ?_, .inr rfl, .inr ⟨rfl, rfl⟩⟩
      rw [retype_datagram s src (by decide), if_pos rfl]
      exact Session.parseIncomingPacket_relayData hcounter
    · refine ⟨_, ?_, .inl rfl, .inl ⟨rfl, rfl⟩⟩
      rw [retype_datagram s src (by decide), if_neg (by decide)]
      exact Session.parseIncomingPacket_data hcounter
  have hwaits : d.Waits fun key v => v ∈ d.waiting key := by
    refine ⟨items, hpooled, fun key v hv => ?_⟩
    change v ∈ d.waiting key
    rwa [hpooled.waiting key]
  rcases handleUdpPacket_transport hparse hkinds h with
    ⟨rfl, rfl⟩ | ⟨key, dropped, d₁, hkey, hdrop, hhandle⟩
  · exact ⟨rfl, rfl, fun key => List.Subset.refl _⟩
  · obtain ⟨hwaits₁, hsealed₁⟩ := dropExpiredPacketQueues_waits hdrop hwaits
    have hqueues := dropExpiredPacketQueues_queuesOnly hdrop
    have hshares₁ : ∀ peer₁, d₁.peers.peerByKey key = some peer₁ → peer₁.tunnel.Shares s src := by
      intro peer₁ hpeer₁
      obtain ⟨peer, q, hpeer, rfl⟩ := hqueues key peer₁ hpeer₁
      exact hshares key peer hkey hpeer
    obtain ⟨hsilent, hsealed, hwaits'⟩ :=
      handleAttributedPacket_retyped hK htyped hpacket hshares₁ hhandle hwaits₁
    exact ⟨hsilent, hsealed.trans hsealed₁, fun key v hv => hwaits'.waiting hv⟩

theorem Reachable.pooled (h : d.Reachable) : ∃ items, d.Pooled items := by
  obtain ⟨profile, config, resources, draws, clock, secrets, d₀, events, outputs, hnew, hrun⟩ := h
  obtain ⟨items, hpooled, -⟩ := run_orphans hrun (new_pooled hnew).1
  exact ⟨items, hpooled⟩

/-- Under the other type, every device that has the other end of the session ignores the packet. -/
def Separated (K : Crypto) (used : Set (Bytes × ℕ)) (packet : Bytes) : Prop :=
  ∃ (s : Session) (packetType : MessageType) (src : Bytes),
    (s.sendingKey, s.sendingKeyCounter) ∈ used ∧ packet = s.datagram K packetType src ∧
    ∀ (N BYTES : ℕ) (d d' : Device K N BYTES) (fits : (retype packet).length ≤ maxPacketSize)
      (addr : SocketAddr) (outputs : List Output), d.Reachable → d.Shares s src →
      d.step (.udpPacket (retype packet) fits addr) = .ok (outputs, d') → d.Ignored outputs d'

variable {d₀ : Device K N BYTES} {used : Set (Bytes × ℕ)} {Foreign : Bytes → Prop}
  {profile : Profile} {config : Config K} {resources : Resources} {draws : Draws} {clock : ℕ → ℕ}
  {secrets : ℕ → K.Secret}

/-- Every transport packet that a device emits is useless under the other type, unless it is the
inner packet of a foreign envelope. `used` has the keys and counters that devices seal with, and
`Foreign` the envelopes that the device opens and no device made. -/
theorem run_types_separated (hK : K.Lawful)
    (hnew : new profile config resources draws clock secrets = .ok (.ok d₀))
    {events : List Event} {outputs : List (List Output)}
    (hrun : Machine.run step d₀ events = .ok (outputs, d)) (hrecorded : Recorded used d)
    (hopens : Machine.Along step (OpensAuthored used Foreign) d₀ events) {packet : Bytes}
    {addr : SocketAddr} (hsent : Output.udp packet addr ∈ outputs.flatten)
    (htype : messageTypeOf packet = MessageType.data ∨
      messageTypeOf packet = MessageType.relayData) :
    Separated K used packet ∨ PassedOn Foreign packet := by
  rcases run_emits hrun hrecorded (new_queued hnew) hopens packet addr hsent with
    (hhandshake | ⟨s, packetType, src, hsealable, hkey, hcounter, rfl⟩) | hpassed
  · rw [AnnouncesHandshake] at hhandshake
    rcases htype with htype | htype
    · rw [htype] at hhandshake
      exact absurd hhandshake (by decide)
    · rw [htype] at hhandshake
      exact absurd hhandshake (by decide)
  · refine .inl ⟨s, packetType, src, hkey, rfl, ?_⟩
    intro N' BYTES' receiver receiver' fits addr' outputs' hreachable hshares hstep
    obtain ⟨items, hpooled⟩ := hreachable.pooled
    exact step_retyped hK hsealable.wellTyped hcounter hpooled hshares hstep
  · exact .inr hpassed

end Device

namespace Sample

open Device

def received (datagram : Bytes) (src : SocketAddr) : Event :=
  .udpPacket (datagram.take maxPacketSize) (List.length_take_le _ _) src

def sends (packet : Bytes) (addr : SocketAddr) : Output → Bool
  | .udp packet' addr' => packet' = packet && addr' = addr
  | _ => false

theorem mem_of_any_sends {outputs : List Output} {packet : Bytes} {addr : SocketAddr}
    (h : outputs.any (sends packet addr) = true) : Output.udp packet addr ∈ outputs := by
  obtain ⟨output, hmem, hsends⟩ := List.any_eq_true.mp h
  cases output with
  | udp packet' addr' =>
    simp only [sends, Bool.and_eq_true, decide_eq_true_eq] at hsends
    obtain ⟨rfl, rfl⟩ := hsends
    exact hmem
  | nic | completion => cases hsends

def relayPeers : List PeerConfig := [peerConfig 5 lan none, peerConfig 9 [] none]

def targetPeers : List PeerConfig := [peerConfig 5 lan none, peerConfig 3 [] none]

def responseTo (n m : ℕ) (peers : List PeerConfig) : Bytes :=
  (datagrams m peers [received (initiationOf n m) (addr n)]).head?.getD []

def sessionWith (n m : ℕ) (peers : List PeerConfig) : Option Session :=
  match device n [peerConfig m lan none] with
  | .ok (.ok d) =>
    match Machine.run step d
        [.tunPacket innerPacket length_innerPacket_le, received (responseTo n m peers) (addr m)] with
    | .ok (_, d) => (d.peers.peerByKey (key m)).bind fun peer => peer.tunnel.currentSession
    | .error _ => none
  | _ => none

def sealedFor (m : ℕ) (peers : List PeerConfig) (packetType : MessageType) (src : Bytes) : Bytes :=
  (sessionWith 5 m peers).elim [] fun s => s.datagram Crypto.sample packetType src

def envelopeFor (n : ℕ) (packet : Bytes) : Bytes :=
  (Relay.buildEnvelope maxPacketSize (key n) packet).toOption.getD []

def letter : Bytes := Bytes.toLe 4 MessageType.data ++ Bytes.zeros 28

def disguised : Bytes := sealedFor 9 targetPeers MessageType.data (envelopeFor 3 letter)

def submitted : Bytes :=
  sealedFor 1 relayPeers MessageType.relayData (envelopeFor 9 disguised)

/-- The relay passes the disguised envelope on. With its type rewritten it is forwarded once more,
by the device it is meant for. -/
theorem retyped_inner_forwarded :
    ∃ relay relayed relay' target greeting target' forwarded target'',
      device 1 relayPeers = .ok (.ok relay) ∧
      Machine.run step relay [received (initiationOf 5 1) (addr 5), received submitted (addr 5)] =
        .ok (relayed, relay') ∧
      Output.udp disguised (addr 9) ∈ relayed.flatten ∧
      messageTypeOf disguised = MessageType.data ∧
      device 9 targetPeers = .ok (.ok target) ∧
      Machine.run step target [received (initiationOf 5 9) (addr 5)] = .ok (greeting, target') ∧
      target'.step (received (retype disguised) (addr 1)) = .ok (forwarded, target'') ∧
      Output.udp letter (addr 3) ∈ forwarded := by
  have hrelay : runAnd 1 relayPeers
      [received (initiationOf 5 1) (addr 5), received submitted (addr 5)]
      (fun (outputs, _) => outputs.flatten.any (sends disguised (addr 9))) = true := by
    decide +kernel
  have htype : messageTypeOf disguised = MessageType.data := by decide +kernel
  have htarget : runAnd 9 targetPeers [received (initiationOf 5 9) (addr 5)]
      (fun (_, d) => okAnd (fun (outputs, _) => outputs.any (sends letter (addr 3)))
        (d.step (received (retype disguised) (addr 1)))) = true := by
    decide +kernel
  obtain ⟨relay, relayed, relay', hnew, hrun, hrelayed⟩ := exists_of_runAnd hrelay
  obtain ⟨target, greeting, target', hnew', hrun', hstep⟩ := exists_of_runAnd htarget
  obtain ⟨⟨forwarded, target''⟩, hstep, hforwarded⟩ := exists_of_okAnd hstep
  exact ⟨relay, relayed, relay', target, greeting, target', forwarded, target'', hnew, hrun,
    mem_of_any_sends hrelayed, htype, hnew', hrun', hstep, mem_of_any_sends hforwarded⟩

theorem run_types_separated_direct :
    ∃ start outputs d packet, device 1 [peerConfig 5 lan none] = .ok (.ok start) ∧
      Machine.run step start
        [received (initiationOf 5 1) (addr 5), .tunPacket innerPacket (by decide)] =
          .ok (outputs, d) ∧
      Output.udp packet (addr 5) ∈ outputs.flatten ∧ messageTypeOf packet = MessageType.data ∧
      Separated Crypto.sample {x | x ∈ d.world.sealed} packet := by
  have hsample : runAnd 1 [peerConfig 5 lan none]
      [received (initiationOf 5 1) (addr 5), .tunPacket innerPacket (by decide)]
      (fun (outputs, _) => outputs.flatten.any fun output =>
        match output with
        | .udp packet dst => dst = addr 5 && messageTypeOf packet = MessageType.data
        | _ => false) = true := by
    decide +kernel
  have hinit : okAnd (fun packet => packet matches .handshakeInit _)
      (parseIncomingPacket ((initiationOf 5 1).take maxPacketSize)) = true := by
    decide +kernel
  obtain ⟨start, outputs, d, hnew, hrun, hp⟩ := exists_of_runAnd hsample
  obtain ⟨output, hmem, houtput⟩ := List.any_eq_true.mp hp
  have hopens : Machine.Along step
      (OpensAuthored {x | x ∈ d.world.sealed} fun _ => False) start
      [received (initiationOf 5 1) (addr 5), .tunPacket innerPacket (by decide)] := by
    apply Machine.along_of_forall
    intro state e he
    rcases List.mem_pair.mp he with rfl | rfl
    · intro packet plaintext hparse hopens
      obtain ⟨packet', hparse', hkind⟩ := exists_of_okAnd hinit
      cases hparse'.symm.trans hparse
      cases packet with
      | handshakeInit p => cases hopens
      | _ => cases hkind
    · trivial
  cases output with
  | udp packet dst =>
    simp only [Bool.and_eq_true, decide_eq_true_eq] at houtput
    obtain ⟨rfl, htype⟩ := houtput
    refine ⟨start, outputs, d, packet, hnew, hrun, hmem, htype, ?_⟩
    rcases run_types_separated Crypto.sample_lawful hnew hrun (fun x hx => hx) hopens hmem
      (.inl htype) with hseparated | ⟨plaintext, e, hforeign, -, -⟩
    · exact hseparated
    · exact hforeign.elim
  | nic | completion => cases houtput

end Sample

end Tendrilix
