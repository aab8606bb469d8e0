import Tendrilix.Device.RelayQueue
import Tendrilix.Device.Sealing
import Tendrilix.Noise.RoundTrip

/-!
# What a relay does with an envelope

A relay that opens an envelope passes it on to the next relay with a lower hop limit, delivers the
inner packet, or drops it.
-/

namespace Tendrilix

open Noise ReplayWindow

variable {K : Crypto} {N BYTES : ℕ}

theorem Noise.Relay.validateInnerPacket_type {inner : Bytes}
    (h : Relay.validateInnerPacket inner = .ok ()) : messageTypeOf inner ≠ MessageType.relayData := by
  intro htype
  rw [messageTypeOf] at htype
  rw [Relay.validateInnerPacket, htype] at h
  split at h
  · cases h
  dsimp only at h
  split at h
  · rename_i hvalid
    simp [MessageType.relayData, MessageType.handshakeInit, MessageType.handshakeResp,
      MessageType.cookieReply, MessageType.data] at hvalid
  · split at h <;> cases h

namespace Noise.Tunn

variable {t t' : Tunn K} {w w' : World K N BYTES} {packetType : MessageType} {src : Bytes}
  {dstLen : ℕ} {r : TunnResult}

structure Established (t : Tunn K) : Prop where
  current : t.currentSession ≠ none
  counters : ∀ i s, t.sessions i = some s → s.sendingKeyCounter < rejectAfterMessages

theorem Established.encapsulate (h : t.Established)
    (call : t.encapsulateWithType packetType src dstLen w = .ok (r, t', w')) :
    ∃ s : Session, s.sendingKeyCounter < rejectAfterMessages ∧
      r = .writeToNetwork (s.datagram K packetType src) := by
  obtain ⟨⟨written, t₁, w₁⟩, hseal, call⟩ := bind_ok_iff.mp call
  rcases sealWithCurrent_ok hseal with ⟨-, -, -, hexhausted⟩ | ⟨packet, s, rfl, -, -, -, -⟩
  · obtain ⟨s, hs⟩ := Option.ne_none_iff_exists'.mp h.current
    exact absurd (h.counters _ s hs) (Nat.not_lt.mpr (hexhausted s hs))
  · obtain ⟨s, -, hpacket, hcounter, -⟩ := sealWithCurrent_datagram hseal
    cases call
    exact ⟨s, hcounter, congrArg TunnResult.writeToNetwork hpacket⟩

theorem Established.decryptRawData (h : t.Established) {p : Data} {plaintext : Bytes}
    (call : t.decryptRawData p dstLen = .ok (.ok plaintext, t')) : t'.Established := by
  obtain ⟨s, s', hs, hreceive, rfl⟩ := decryptRawData_ok call
  obtain ⟨-, -, -, v, receiveCnt, -, rfl⟩ := Session.receivePacketData_ok hreceive
  set opened : Session := { s with receivingKeyCounter := { v with receiveCnt := receiveCnt } }
  have hslot : ∀ i, Function.update t.sessions (slotOf p.receiverIdx) (some opened) i = none →
      t.sessions i = none := by
    intro i hi
    by_cases heq : i = slotOf p.receiverIdx
    · rw [heq, Function.update_self] at hi
      cases hi
    · rwa [Function.update_of_ne heq] at hi
  constructor
  · intro hnone
    change ((t.setSession p.receiverIdx opened).setCurrentSession p.receiverIdx).currentSession =
      none at hnone
    rw [setCurrentSession] at hnone
    split at hnone
    · exact h.current (hslot _ hnone)
    split at hnone
    · cases hs.symm.trans (hslot _ hnone)
    · exact h.current (hslot _ hnone)
  · intro i session hsession
    change ((t.setSession p.receiverIdx opened).setCurrentSession p.receiverIdx).sessions i =
      some session at hsession
    rw [setCurrentSession_sessions] at hsession
    change Function.update t.sessions (slotOf p.receiverIdx) (some opened) i = _ at hsession
    by_cases heq : i = slotOf p.receiverIdx
    · rw [heq, Function.update_self] at hsession
      cases hsession
      exact h.counters _ s hs
    · rw [Function.update_of_ne heq] at hsession
      exact h.counters i session hsession

end Noise.Tunn

namespace Device

variable {d d' d'' : Device K N BYTES} {submitter : PublicKey} {plaintext : Bytes}
  {outputs : List Output}

inductive Relayed (d : Device K N BYTES) (submitter : PublicKey) (plaintext : Bytes) :
    List Output → Prop
  | dropped : Relayed d submitter plaintext []
  | forwarded {e e' : Relay.Envelope} {s : Session} {addr : SocketAddr}
      (parsed : Relay.Envelope.parse plaintext = .ok e)
      (valid : Relay.validateInnerPacket e.innerPacket = .ok ())
      (authorized : d.forwardingAuthorizer submitter e.destination = true)
      (decremented : e.decrementHopLimit = .ok e')
      (counter : s.sendingKeyCounter < rejectAfterMessages) :
      Relayed d submitter plaintext [.udp (s.datagram K MessageType.relayData e'.bytes) addr]
  | delivered {e : Relay.Envelope} {addr : SocketAddr}
      (parsed : Relay.Envelope.parse plaintext = .ok e)
      (valid : Relay.validateInnerPacket e.innerPacket = .ok ())
      (authorized : d.forwardingAuthorizer submitter e.destination = true) :
      Relayed d submitter plaintext [.udp e.innerPacket addr]

/-- The device has an established session with every relay that it sends through. -/
def Connected (d : Device K N BYTES) : Prop :=
  ∀ destination peer relay relayPeer, d.peers.peerByKey destination = some peer →
    peer.relay = some relay → d.peers.peerByKey relay = some relayPeer →
      relayPeer.tunnel.Established

theorem Connected.queuesOnly (h : d.Connected) (hqueues : QueuesOnly d d') : d'.Connected := by
  intro destination peer' relay relayPeer' hpeer' hrelay hrelayPeer'
  obtain ⟨peer, q, hpeer, rfl⟩ := hqueues destination peer' hpeer'
  obtain ⟨relayPeer, q', hrelayPeer, rfl⟩ := hqueues relay relayPeer' hrelayPeer'
  obtain ⟨hcurrent, hcounters⟩ := h destination peer relay relayPeer hpeer hrelay hrelayPeer
  exact ⟨hcurrent, hcounters⟩

theorem Connected.setTunnel (h : d.Connected) {key : PublicKey} {peer : Peer K}
    (hpeer : d.peers.peerByKey key = some peer) {t : Tunn K} (w : World K N BYTES)
    (ht : peer.tunnel.Established → t.Established) : (d.setTunnel key peer t w).Connected := by
  have hmem := Bounded.mem_of_lookup hpeer
  have hsame : PeerState.SameBy (·.relay) d.peers (d.setTunnel key peer t w).peers :=
    PeerState.SameBy.setPeer _ hpeer rfl
  intro destination peer' relay relayPeer' hpeer' hrelay hrelayPeer'
  obtain ⟨destinationPeer, hdestination, heq⟩ := hsame.symm.peer hpeer'
  have hconnected := h destination destinationPeer relay
  rcases (Bounded.lookup_replace_eq_some_iff hmem).mp hrelayPeer' with ⟨rfl, rfl⟩ | ⟨-, hother⟩
  · exact ht (hconnected peer hdestination (heq.trans hrelay) hpeer)
  · exact hconnected relayPeer' hdestination (heq.trans hrelay) hother

theorem forwardEnvelope_relayed (hconnected : d.Connected)
    (h : d.forwardEnvelope submitter plaintext = .ok (outputs, d')) :
    d.Relayed submitter plaintext outputs := by
  rw [forwardEnvelope] at h
  split at h
  · cases h
    exact .dropped
  rename_i e hparse
  split at h
  · cases h
    exact .dropped
  rename_i hvalid
  dsimp only at h
  split at h
  · cases h
    exact .dropped
  rename_i hauthorized
  rw [Bool.not_eq_true, Bool.not_eq_false'] at hauthorized
  split at h
  · rename_i relay hnext
    obtain ⟨⟨dropped, d₁⟩, hdrop, h⟩ := bind_ok_iff.mp h
    dsimp only at h
    split at h
    · cases h
      exact .dropped
    rename_i relayPeer hrelayPeer
    split at h
    · cases h
      exact .dropped
    rename_i e' hdecrement
    obtain ⟨⟨r, t, w⟩, hcall, h⟩ := bind_ok_iff.mp h
    obtain ⟨peer, hpeer, hrelay⟩ := Option.bind_eq_some_iff.mp hnext
    have hqueues := dropExpiredPacketQueues_queuesOnly hdrop
    obtain ⟨old, q, hold, rfl⟩ := hqueues relay relayPeer hrelayPeer
    obtain ⟨hcurrent, hcounters⟩ := hconnected e.destination peer relay old hpeer hrelay hold
    have hestablished : Tunn.Established { old.tunnel with packetQueue := q } :=
      ⟨hcurrent, hcounters⟩
    obtain ⟨s, hcounter, rfl⟩ := hestablished.encapsulate hcall
    cases h
    cases old.endpoint with
    | none => exact .dropped
    | some addr => exact .forwarded hparse hvalid hauthorized hdecrement hcounter
  · cases h
    exact .delivered hparse hvalid hauthorized
  · cases h
    exact .dropped

theorem Moves.authorizer {roams : Prop} (h : Moves roams d d') :
    d'.forwardingAuthorizer = d.forwardingAuthorizer := by
  refine h.invariant (I := fun d₁ => d₁.forwardingAuthorizer = d.forwardingAuthorizer) ?_ rfl
  intro d₁ d₂ hmove hinv
  cases hmove with
  | read => exact hinv
  | count => exact hinv
  | tunnel _ _ => exact hinv
  | endpoint _ _ _ => exact hinv

theorem Relayed.of_authorizer (h : d'.Relayed submitter plaintext outputs)
    (hsame : d'.forwardingAuthorizer = d.forwardingAuthorizer) :
    d.Relayed submitter plaintext outputs := by
  cases h with
  | dropped => exact .dropped
  | forwarded parsed valid authorized decremented counter =>
    exact .forwarded parsed valid (hsame ▸ authorized) decremented counter
  | delivered parsed valid authorized => exact .delivered parsed valid (hsame ▸ authorized)

theorem handleUdpPacket_relayed {datagram : Bytes} {addr : SocketAddr} {p : Data}
    (hparse : parseIncomingPacket datagram = .ok (.relayData p)) (hconnected : d.Connected)
    (h : d.handleUdpPacket datagram addr = .ok (outputs, d')) :
    outputs = [] ∨ ∃ submitter plaintext, d.peers.peerKeyByIndex p.receiverIdx = some submitter ∧
      d.opens (.relayData p) = some plaintext ∧ d.Relayed submitter plaintext outputs := by
  rcases handleUdpPacket_transport hparse (.inr rfl) h with
    ⟨rfl, -⟩ | ⟨submitter, dropped, d₁, hkey, hdrop, hhandle⟩
  · exact .inl rfl
  have hqueues := dropExpiredPacketQueues_queuesOnly hdrop
  have hmoves : Moves False d d₁ := dropExpiredPacketQueues_moves hdrop
  rw [handleAttributedPacket] at hhandle
  split at hhandle
  · cases hhandle
    exact .inl rfl
  rename_i peer hpeer
  obtain ⟨⟨r, t⟩, hcall, hhandle⟩ := bind_ok_iff.mp hhandle
  cases r with
  | error e =>
    cases hhandle
    exact .inl rfl
  | ok plaintext =>
    have hopens := opens_of_queuesOnly hkey hqueues hpeer hcall
    have hconnected₂ : (d₁.setTunnel submitter peer t d₁.world).Connected :=
      (hconnected.queuesOnly hqueues).setTunnel hpeer _ fun h => h.decryptRawData hcall
    have hrelayed := forwardEnvelope_relayed hconnected₂ hhandle
    exact .inr ⟨submitter, plaintext, hkey, hopens, hrelayed.of_authorizer hmoves.authorizer⟩

/-! ### A relay that expects the envelope -/

structure Expects (d : Device K N BYTES) (s : Session) (submitter : PublicKey) : Prop where
  index : s.sendingIndex < 2 ^ 32
  counter : s.sendingKeyCounter < rejectAfterMessages
  attributed : d.peers.peerKeyByIndex s.sendingIndex = some submitter
  listens : ∃ peer seen, d.peers.peerByKey submitter = some peer ∧
    peer.tunnel.Listens s.sendingIndex s.sendingKey seen ∧ Acceptable seen s.sendingKeyCounter

def routeOf (d : Device K N BYTES) (key : PublicKey) :
    Option (Option PublicKey × Option SocketAddr) :=
  (d.peers.peerByKey key).map fun peer => (peer.relay, peer.endpoint)

theorem Moves.routeOf (h : Moves False d d') (key : PublicKey) : d'.routeOf key = d.routeOf key :=
  h.sameBy (fun _ _ => rfl) key

section Ready

variable {s : Session} {src : Bytes} {addr : SocketAddr} {e e' : Relay.Envelope}
  {relay : PublicKey} {endpoint : Option SocketAddr}
  {items : PublicKey → List (ℕ × QueuedPacket)}

theorem Pooled.dropExpiredPacketQueues (h : d.Pooled items) :
    ∃ dropped d', d.dropExpiredPacketQueues = .ok (dropped, d') ∧ Moves False d d' ∧
      QueuesOnly d d' ∧ ∃ items', d'.Pooled items' := by
  obtain ⟨dropped, d', hdrop⟩ :=
    dropExpiredPacketQueues_total (Q := fun _ _ => True) ⟨items, h, fun _ _ _ => trivial⟩
  have hmoves : Moves False d d' := dropExpiredPacketQueues_moves hdrop
  obtain ⟨items', hpooled', -⟩ := hmoves.follows h
  exact ⟨dropped, d', hdrop, hmoves, dropExpiredPacketQueues_queuesOnly hdrop, items', hpooled'⟩

theorem Expects.handleUdpPacket (hK : K.Lawful) (h : d.Expects s submitter)
    (hpooled : d.Pooled items) (hconnected : d.Connected)
    (hroom : 32 + Session.paddedLen src.length ≤ maxPacketSize) (addr : SocketAddr) :
    ∃ d₂, d.handleUdpPacket (s.datagram K MessageType.relayData src) addr =
        d₂.forwardEnvelope submitter (Session.padded src) ∧
      d₂.Connected ∧ Moves False d d₂ ∧ ∃ items₂, d₂.Pooled items₂ := by
  obtain ⟨peer, seen, hpeer, hlistens, hacc⟩ := h.listens
  obtain ⟨dropped, d₁, hdrop, hmoves₁, hqueues, items₁, hpooled₁⟩ := hpooled.dropExpiredPacketQueues
  have hparse : parseIncomingPacket (s.datagram K MessageType.relayData src) =
      .ok (.relayData (s.dataOf K src)) := Session.parseIncomingPacket_relayData h.counter
  have hverify : d.rateLimiter.verifyPacket (some addr.ip) _ maxPacketSize d.world = _ :=
    RateLimiter.verifyPacket_unlimited hparse rfl
  have hkey : d.peers.peerKeyByIndex (s.dataOf K src).receiverIdx = some submitter := by
    rw [Session.dataOf_receiverIdx K src h.index, h.attributed]
  -- The queues that were cleared first are not what the packet is opened with.
  obtain ⟨peer₁, hpeer₁, -⟩ := (hmoves₁.sameBy (f := fun _ => ()) fun _ _ => rfl).peer hpeer
  obtain ⟨peer₀, q, hpeer₀, rfl⟩ := hqueues submitter peer₁ hpeer₁
  cases hpeer.symm.trans hpeer₀
  have hfits : Session.paddedLen src.length + aeadSize ≤ maxPacketSize := by
    rw [aeadSize]
    omega
  obtain ⟨t, hcall, -⟩ := Tunn.decryptRawData_dataOf (t := { peer.tunnel with packetQueue := q })
    hK h.index hlistens h.counter hacc hfits
  have hrelay : Tunn.handleVerifiedRelayPacket { peer.tunnel with packetQueue := q }
      (.relayData (s.dataOf K src)) maxPacketSize = .ok (.ok (Session.padded src), t) := hcall
  have hmoves₂ : Moves False d₁ (d₁.setTunnel submitter _ t d₁.world) :=
    Move.moves (.tunnel hpeer₁ (.receiveRelay hrelay))
  obtain ⟨items₂, hpooled₂, -⟩ := hmoves₂.follows hpooled₁
  refine ⟨_, ?_, (hconnected.queuesOnly hqueues).setTunnel hpeer₁ _ fun h => h.decryptRawData hcall,
    hmoves₁.trans hmoves₂, items₂, hpooled₂⟩
  rw [Device.handleUdpPacket, hverify]
  simp only [peerKeyOf, hkey, ok_bind, hdrop, handleAttributedPacket, hpeer₁,
    Tunn.handleVerifiedRelayPacket, hcall]

variable (hparse : Relay.Envelope.parse plaintext = .ok e)
  (hvalid : Relay.validateInnerPacket e.innerPacket = .ok ())
  (hauthorized : d.forwardingAuthorizer submitter e.destination = true)
include hparse hvalid hauthorized

theorem forwardEnvelope_delivers (hroute : d.routeOf e.destination = some (none, some addr)) :
    d.forwardEnvelope submitter plaintext = .ok ([.udp e.innerPacket addr], d) := by
  obtain ⟨peer, hpeer, hpair⟩ := Option.map_eq_some_iff.mp hroute
  obtain ⟨hrelay, haddr⟩ := Prod.mk.inj hpair
  rw [forwardEnvelope, hparse]
  simp only [hvalid, hauthorized, Bool.not_true, Bool.false_eq_true, if_false, hpeer,
    Option.bind_some, hrelay, haddr]

variable (hpooled : d.Pooled items)
  (hroute : d.routeOf e.destination = some (some relay, endpoint))
include hpooled hroute

theorem forwardEnvelope_exhausted (hlimit : e.hopLimit ≤ 1) :
    ∃ d', d.forwardEnvelope submitter plaintext = .ok ([], d') := by
  obtain ⟨peer, hpeer, hpair⟩ := Option.map_eq_some_iff.mp hroute
  obtain ⟨hrelay, -⟩ := Prod.mk.inj hpair
  obtain ⟨dropped, d₁, hdrop, -⟩ := hpooled.dropExpiredPacketQueues
  have hexhausted : e.decrementHopLimit = .error .hopLimitExhausted := if_pos hlimit
  rw [forwardEnvelope, hparse]
  simp only [hvalid, hauthorized, Bool.not_true, Bool.false_eq_true, if_false, hpeer,
    Option.bind_some, hrelay, hdrop, ok_bind, hexhausted, pure_eq_ok]
  split
  · exact ⟨_, rfl⟩
  · exact ⟨_, rfl⟩

theorem forwardEnvelope_forwards (hconnected : d.Connected)
    (hnext : ∃ route, d.routeOf relay = some (route, some addr))
    (hdecrement : e.decrementHopLimit = .ok e')
    (hroom : 32 + Session.paddedLen e'.bytes.length ≤ maxPacketSize) :
    ∃ (s : Session) (d' : Device K N BYTES), s.sendingKeyCounter < rejectAfterMessages ∧
      d.forwardEnvelope submitter plaintext =
        .ok ([.udp (s.datagram K MessageType.relayData e'.bytes) addr], d') := by
  obtain ⟨peer, hpeer, hpair⟩ := Option.map_eq_some_iff.mp hroute
  obtain ⟨hrelay, -⟩ := Prod.mk.inj hpair
  obtain ⟨dropped, d₁, hdrop, hmoves, hqueues, -⟩ := hpooled.dropExpiredPacketQueues
  obtain ⟨route, hnext⟩ := hnext
  rw [← hmoves.routeOf] at hroute hnext
  obtain ⟨peer₁, hpeer₁, hpair₁⟩ := Option.map_eq_some_iff.mp hroute
  obtain ⟨relayPeer, hrelayPeer, hnextPair⟩ := Option.map_eq_some_iff.mp hnext
  obtain ⟨hrelay₁, -⟩ := Prod.mk.inj hpair₁
  obtain ⟨-, haddr⟩ := Prod.mk.inj hnextPair
  obtain ⟨hcurrent, hcounters⟩ :=
    hconnected.queuesOnly hqueues e.destination peer₁ relay relayPeer hpeer₁ hrelay₁ hrelayPeer
  obtain ⟨s, hs⟩ := Option.ne_none_iff_exists'.mp hcurrent
  have hcounter := hcounters _ s hs
  obtain ⟨t, w, hcall⟩ := encapsulateRelay_eq d₁.world hs hcounter hroom
  refine ⟨s, d₁.setTunnel relay relayPeer t w, hcounter, ?_⟩
  rw [forwardEnvelope, hparse]
  simp only [hvalid, hauthorized, Bool.not_true, Bool.false_eq_true, if_false, hpeer,
    Option.bind_some, hrelay, hdrop, ok_bind, hrelayPeer, hdecrement, hcall, haddr,
    Option.map_some, pure_eq_ok]
  rfl

end Ready

end Device

end Tendrilix
