import Tendrilix.Device.Forgery
import Tendrilix.Device.Relaying

/-!
# What leaves a device, and for whom

A packet from the network interface is sealed for the peer that its destination was routed to when
it arrived, however long it waited for a session, and for nobody else. Around it there may be
envelopes, each for the relay that the peer inside had at the time.
-/

namespace Tendrilix

open Noise

variable {K : Crypto} {N BYTES : ℕ}

/-! ### Sessions of tunnels -/

namespace Noise.Tunn

variable {t t' : Tunn K} {w w' : World K N BYTES} {dstLen : ℕ} {r : TunnResult}
  {packetType : MessageType} {src sendingKey : Bytes}

def SealsWith (t : Tunn K) (sendingKey : Bytes) : Prop :=
  ∃ i s, t.sessions i = some s ∧ s.sendingKey = sendingKey

theorem SealsWith.of_current {s : Session} (hs : t.currentSession = some s) :
    t.SealsWith s.sendingKey := ⟨slotOf t.current, s, hs, rfl⟩

theorem Keeps.sealsWith_iff (h : t.Keeps t') : t'.SealsWith sendingKey ↔ t.SealsWith sendingKey := by
  constructor
  · rintro ⟨i, s', hs', rfl⟩
    obtain ⟨s, hs, hsame⟩ := h.exists_of_some hs'
    exact ⟨i, s, hs, hsame.sendingKey.symm⟩
  · rintro ⟨i, s, hs, rfl⟩
    obtain ⟨s', hs', hsame⟩ := h.some_of_some hs
    exact ⟨i, s', hs', hsame.sendingKey⟩

theorem updateTimers_sealsWith (call : t.updateTimers dstLen w = .ok (r, t', w'))
    (h : t'.SealsWith sendingKey) : t.SealsWith sendingKey := by
  obtain ⟨t₁, hexpire, hkeeps⟩ := updateTimers_keeps call
  obtain ⟨i, s, hs, hkey⟩ := hkeeps.sealsWith_iff.mp h
  rcases updateSessionTimers_slot hexpire i with ⟨-, hnone⟩ | ⟨-, hsame, -⟩
  · cases hnone.symm.trans hs
  · exact ⟨i, s, hsame.symm.trans hs, hkey⟩

def Sends (t : Tunn K) (P : MessageType → Bytes → Prop) (r : TunnResult) : Prop :=
  ∀ packet, r = .writeToNetwork packet → AnnouncesHandshake packet ∨
    ∃ (s : Session) (packetType : MessageType) (src : Bytes), t.SealsWith s.sendingKey ∧
      s.sendingKeyCounter < rejectAfterMessages ∧ P packetType src ∧
      packet = s.datagram K packetType src

theorem encapsulateWithType_sends_current
    (call : t.encapsulateWithType packetType src dstLen w = .ok (r, t', w')) :
    t'.Sends (fun p d => p = packetType ∧ d = src) r := by
  have hkeeps := encapsulateWithType_keeps call
  rintro packet rfl
  obtain ⟨⟨written, t₁, w₁⟩, hseal, call⟩ := bind_ok_iff.mp call
  cases written with
  | some written =>
    cases call
    obtain ⟨s, hs, hpacket, hcounter, -, -⟩ := sealWithCurrent_datagram hseal
    exact .inr ⟨s, packetType, src, hkeeps.sealsWith_iff.mpr (.of_current hs), hcounter, ⟨rfl, rfl⟩,
      hpacket⟩
  | none =>
    obtain ⟨⟨t₂, w₂⟩, -, hrest⟩ := bind_ok_iff.mp call
    exact .inl (formatHandshakeInitiation_handshaken hrest).announces

theorem flushQueuedPacket_sends_queued {P : MessageType → Bytes → Prop}
    {items : List (ℕ × QueuedPacket)} (hp : w.pool.WF)
    (hholds : IntrusiveQueue.Holds w.pool.view t.packetQueue items)
    (hitems : ∀ v ∈ items.map Prod.snd, P v.packetType v.data)
    (call : t.flushQueuedPacket dstLen w = .ok (r, t', w')) : t'.Sends P r := by
  rintro packet rfl
  obtain ⟨x, v, rest, s, rfl, hs, hpacket, hcounter, -, -⟩ :=
    flushQueuedPacket_datagram hp hholds call
  have hkeeps := flushQueuedPacket_keeps call
  exact .inr ⟨s, v.packetType, v.data, hkeeps.sealsWith_iff.mpr (.of_current hs), hcounter,
    hitems v (by simp), hpacket⟩

theorem updateTimers_sends_keepalive (call : t.updateTimers dstLen w = .ok (r, t', w')) :
    t'.Sends (fun p d => p = MessageType.data ∧ d = []) r := by
  obtain ⟨t₁, -, haction⟩ := updateTimers_cases call
  cases haction with
  | giveUp cookie call =>
    rintro packet rfl
    obtain ⟨⟨t₂, w₂⟩, -, call⟩ := bind_ok_iff.mp call
    cases call
  | retry cookie call | rekey cookie due call =>
    rintro packet rfl
    exact .inl (formatHandshakeInitiation_handshaken call).announces
  | keepalive cookie due call => exact encapsulateWithType_sends_current call
  | expired | wait | idle =>
    rintro packet hr
    cases hr

theorem handleVerifiedPacket_sends_keepalive {p : Packet}
    (call : t.handleVerifiedPacket p dstLen w = .ok (r, t', w')) :
    t'.Sends (fun p d => p = MessageType.data ∧ d = []) r := by
  rintro packet rfl
  cases handleVerifiedPacket_cases call with
  | respond hreceive => exact .inl (Handshake.receiveHandshakeInitialization_type hreceive)
  | @conclude _ _ s s' h _ _ hreceive hseal =>
    obtain ⟨hpacket, hcounter, -, -⟩ := World.sealPacket_datagram hseal
    have hslot := congrFun (installInitiator_installed { t with handshake := h } s').sessions_eq
      (slotOf s'.receivingIndex)
    rw [Function.update_self] at hslot
    -- Sealing has moved the counter of the session and nothing else.
    have hkey : s'.sendingKey = s.sendingKey := by
      rcases World.sealPacket_ok hseal with ⟨hr, -⟩ | ⟨packet, -, -, rfl, -⟩
      · cases hr
      · rfl
    exact .inr ⟨s, MessageType.data, [], ⟨_, s', hslot, hkey⟩, hcounter, ⟨rfl, rfl⟩, hpacket⟩
  | receive hdecrypt hvalid =>
    exact absurd (congrArg Prod.fst hvalid) (validateDecapsulatedPacket_ne _ _ packet)

end Noise.Tunn

namespace Device

variable {d d' d'' : Device K N BYTES} {outputs outputs' : List Output} {key : PublicKey}
  {peer : Peer K} {t : Tunn K} {w : World K N BYTES}

/-! ### Sessions of devices -/

def SealsFor (d : Device K N BYTES) (key : PublicKey) (sendingKey : Bytes) : Prop :=
  ∃ peer, d.peers.peerByKey key = some peer ∧ peer.tunnel.SealsWith sendingKey

def relayOf (d : Device K N BYTES) (key : PublicKey) : Option PublicKey :=
  (d.peers.peerByKey key).bind (·.relay)

theorem sealsFor_setTunnel (hpeer : d.peers.peerByKey key = some peer) {sendingKey : Bytes} :
    (d.setTunnel key peer t w).SealsFor key sendingKey ↔ t.SealsWith sendingKey := by
  rw [SealsFor, setTunnel_peerByKey hpeer]
  constructor
  · rintro ⟨peer', hpeer', hkey⟩
    cases hpeer'
    exact hkey
  · intro hkey
    exact ⟨_, rfl, hkey⟩

theorem sealsFor_setTunnel_ne {other : PublicKey} (hother : other ≠ key) {sendingKey : Bytes} :
    (d.setTunnel key peer t w).SealsFor other sendingKey ↔ d.SealsFor other sendingKey := by
  have hlookup : (d.setTunnel key peer t w).peers.peerByKey other = d.peers.peerByKey other :=
    Bounded.lookup_replace_ne _ hother
  rw [SealsFor, hlookup]
  rfl

structure Quiet (d d' : Device K N BYTES) : Prop where
  moves : Moves False d d'
  sessions : ∀ key sendingKey, d'.SealsFor key sendingKey ↔ d.SealsFor key sendingKey

theorem Quiet.refl (d : Device K N BYTES) : Quiet d d := ⟨.refl, fun _ _ => Iff.rfl⟩

theorem Quiet.trans (h : Quiet d d') (h' : Quiet d' d'') : Quiet d d'' where
  moves := h.moves.trans h'.moves
  sessions key sendingKey := (h'.sessions key sendingKey).trans (h.sessions key sendingKey)

theorem Quiet.setTunnel (hpeer : d.peers.peerByKey key = some peer)
    (hcall : TunnelCall peer.tunnel d.world t w) (hkeeps : peer.tunnel.Keeps t) :
    Quiet d (d.setTunnel key peer t w) where
  moves := Move.moves (.tunnel hpeer hcall)
  sessions := by
    intro k sendingKey
    by_cases hk : k = key
    · subst hk
      rw [sealsFor_setTunnel hpeer, hkeeps.sealsWith_iff, SealsFor, hpeer]
      constructor
      · intro hkey
        exact ⟨peer, rfl, hkey⟩
      · rintro ⟨peer', hpeer', hkey⟩
        cases hpeer'
        exact hkey
    · exact sealsFor_setTunnel_ne hk

theorem dropExpiredPacketQueues_quiet {dropped : ℕ}
    (h : d.dropExpiredPacketQueues = .ok (dropped, d')) : Quiet d d' := by
  have hmoves : Moves False d d' := dropExpiredPacketQueues_moves h
  have hqueues := dropExpiredPacketQueues_queuesOnly h
  refine ⟨hmoves, fun k sendingKey => ?_⟩
  constructor
  · rintro ⟨peer', hpeer', hkey⟩
    obtain ⟨peer, q, hpeer, rfl⟩ := hqueues k peer' hpeer'
    exact ⟨peer, hpeer, hkey⟩
  · rintro ⟨peer, hpeer, hkey⟩
    obtain ⟨peer', hpeer', -⟩ := (hmoves.sameBy (f := fun _ => ()) fun _ _ => rfl).peer hpeer
    obtain ⟨peer₀, q, hpeer₀, rfl⟩ := hqueues k peer' hpeer'
    cases hpeer.symm.trans hpeer₀
    exact ⟨_, hpeer', hkey⟩

theorem preparePacketToPeerViaRelay_quiet {destination relay : PublicKey} {packet : Bytes}
    {pending : Option PendingUdpSend}
    (h : d.preparePacketToPeerViaRelay destination relay packet = .ok (pending, d')) :
    Quiet d d' := by
  rw [preparePacketToPeerViaRelay] at h
  split at h
  · cases h
    exact .refl d
  obtain ⟨⟨dropped, d₁⟩, hdrop, h⟩ := bind_ok_iff.mp h
  apply (dropExpiredPacketQueues_quiet hdrop).trans
  dsimp only at h
  split at h
  · cases h
    exact .refl _
  rename_i relayPeer hpeer
  obtain ⟨⟨r, t, w⟩, hcall, h⟩ := bind_ok_iff.mp h
  have hquiet : Quiet d₁ (d₁.setTunnel relay relayPeer t w) :=
    .setTunnel hpeer (.encapsulate hcall) (Tunn.encapsulateWithType_keeps hcall)
  cases r with
  | writeToNetwork | done | err =>
    cases h
    exact hquiet
  | writeToInterfaceV4 | writeToInterfaceV6 => cases h

theorem preparePacketToPeer_quiet {packet : Bytes} {pending : Option PendingUdpSend}
    (h : d.preparePacketToPeer key packet = .ok (pending, d')) : Quiet d d' := by
  rw [preparePacketToPeer] at h
  split at h
  · cases h
    exact .refl d
  split at h
  · exact preparePacketToPeerViaRelay_quiet h
  · cases h
    exact .refl d

theorem flushQueuedPackets_quiet {fuel : ℕ}
    (h : flushQueuedPackets key fuel d = .ok (outputs, d')) : Quiet d d' := by
  induction fuel generalizing d outputs with
  | zero =>
    cases h
    exact .refl _
  | succ fuel ih =>
    rw [flushQueuedPackets] at h
    split at h
    · cases h
      exact .refl _
    rename_i peer hpeer
    obtain ⟨⟨r, t, w⟩, hcall, h⟩ := bind_ok_iff.mp h
    have hquiet : Quiet d (d.setTunnel key peer t w) :=
      .setTunnel hpeer (.flush hcall) (Tunn.flushQueuedPacket_keeps hcall)
    cases r with
    | writeToNetwork packet =>
      obtain ⟨⟨pending, d₁⟩, hprepare, h⟩ := bind_ok_iff.mp h
      obtain ⟨⟨rest, d₂⟩, hrest, h⟩ := bind_ok_iff.mp h
      cases h
      exact hquiet.trans ((preparePacketToPeer_quiet hprepare).trans (ih hrest))
    | done | err | writeToInterfaceV4 | writeToInterfaceV6 =>
      cases h
      exact hquiet

theorem finishUdpPacket_quiet {r : TunnResult}
    (h : d.finishUdpPacket key peer r = .ok (outputs, d')) : Quiet d d' := by
  cases r with
  | done | err =>
    cases h
    exact .refl d
  | writeToNetwork packet =>
    obtain ⟨⟨pending, d₁⟩, hprepare, h⟩ := bind_ok_iff.mp h
    obtain ⟨⟨rest, d₂⟩, hrest, h⟩ := bind_ok_iff.mp h
    cases h
    exact (preparePacketToPeer_quiet hprepare).trans (flushQueuedPackets_quiet hrest)
  | writeToInterfaceV4 | writeToInterfaceV6 =>
    obtain ⟨allowed, -, h⟩ := bind_ok_iff.mp h
    cases h
    exact .refl d

/-! ### What may be sent to whom -/

section Confinement

variable (K) (Held : PublicKey → Bytes → Prop)
  (route : PublicKey → Option (Option PublicKey × Option SocketAddr))
  (Bound : PublicKey → MessageType → Bytes → Prop)

def SealedFor (key : PublicKey) (packetType : MessageType) (packet : Bytes) : Prop :=
  ∃ (s : Session) (src : Bytes), Held key s.sendingKey ∧
    s.sendingKeyCounter < rejectAfterMessages ∧ Bound key packetType src ∧
    packet = s.datagram K packetType src

def HandedOut (key : PublicKey) (packet : Bytes) : Prop :=
  AnnouncesHandshake packet ∨ ∃ packetType, SealedFor K Held Bound key packetType packet

inductive SentTo : Bytes → SocketAddr → Prop
  | direct {key : PublicKey} {packet : Bytes} {addr : SocketAddr}
      (known : route key = some (none, some addr)) (handedOut : HandedOut K Held Bound key packet) :
      SentTo packet addr
  | toRelay {relay : PublicKey} {next : Option PublicKey} {packet : Bytes} {addr : SocketAddr}
      (known : route relay = some (next, some addr))
      (sent : AnnouncesHandshake packet ∨
        SealedFor K Held Bound relay MessageType.relayData packet) : SentTo packet addr

def Envelops : Prop :=
  ∀ key relay endpoint packet envelope, route key = some (some relay, endpoint) →
    HandedOut K Held Bound key packet →
    Relay.buildEnvelope maxPacketSize key packet = .ok envelope →
    Bound relay MessageType.relayData envelope

def Confines (outputs : List Output) : Prop :=
  ∀ packet addr, Output.udp packet addr ∈ outputs → SentTo K Held route Bound packet addr

end Confinement

variable {Held : PublicKey → Bytes → Prop}
  {route : PublicKey → Option (Option PublicKey × Option SocketAddr)}
  {Bound : PublicKey → MessageType → Bytes → Prop}

/-- The sessions are among those in `Held`, the peers are reached as `route` says, and what waits is
bound for the peer that it waits for. -/
structure Confined (Held : PublicKey → Bytes → Prop)
    (route : PublicKey → Option (Option PublicKey × Option SocketAddr))
    (Bound : PublicKey → MessageType → Bytes → Prop) (d : Device K N BYTES) : Prop where
  held : ∀ key sendingKey, d.SealsFor key sendingKey → Held key sendingKey
  routed : ∀ key, d.routeOf key = route key
  waits : d.Waits fun key v => Bound key v.packetType v.data

theorem Confined.quiet (h : d.Confined Held route Bound) (hquiet : Quiet d d')
    (hwaits : d'.Waits fun key v => Bound key v.packetType v.data) :
    d'.Confined Held route Bound where
  held key sendingKey hkey := h.held key sendingKey ((hquiet.sessions key sendingKey).mp hkey)
  routed key := (hquiet.moves.routeOf key).trans (h.routed key)
  waits := hwaits

theorem Confined.setTunnel {P : MessageType → Bytes → Prop} (h : d.Confined Held route Bound)
    (hpeer : d.peers.peerByKey key = some peer) (hcall : TunnelCall peer.tunnel d.world t w)
    (hkeeps : peer.tunnel.Keeps t) (hqueues : Tunn.Queues P peer.tunnel d.world t w)
    (hP : ∀ packetType src, P packetType src → Bound key packetType src) :
    (d.setTunnel key peer t w).Confined Held route Bound :=
  h.quiet (.setTunnel hpeer hcall hkeeps)
    (h.waits.setTunnel hpeer hqueues fun v => hP v.packetType v.data)

theorem Confined.dropExpired {dropped : ℕ} (h : d.Confined Held route Bound)
    (hdrop : d.dropExpiredPacketQueues = .ok (dropped, d')) : d'.Confined Held route Bound :=
  h.quiet (dropExpiredPacketQueues_quiet hdrop) (dropExpiredPacketQueues_waits hdrop h.waits).1

theorem Confines.nil : Confines K Held route Bound [] :=
  fun _ _ hmem => absurd hmem List.not_mem_nil

theorem Confines.append (h : Confines K Held route Bound outputs)
    (h' : Confines K Held route Bound outputs') :
    Confines K Held route Bound (outputs ++ outputs') := by
  intro packet addr hmem
  rcases List.mem_append.mp hmem with hmem | hmem
  · exact h packet addr hmem
  · exact h' packet addr hmem

theorem Confines.single {packet : Bytes} {addr : SocketAddr}
    (h : SentTo K Held route Bound packet addr) :
    Confines K Held route Bound [.udp packet addr] := by
  intro packet' addr' hmem
  cases List.mem_singleton.mp hmem
  exact h

theorem Confines.pending {packet : Bytes} {endpoint : Option SocketAddr}
    (h : ∀ addr, endpoint = some addr → SentTo K Held route Bound packet addr) :
    Confines K Held route Bound (sendPendingPacket (endpoint.map (packet, ·))) := by
  cases endpoint with
  | none => exact .nil
  | some addr => exact .single (h addr rfl)

theorem Confined.sealed {P : MessageType → Bytes → Prop} {packet : Bytes}
    (h : (d.setTunnel key peer t w).Confined Held route Bound)
    (hpeer : d.peers.peerByKey key = some peer) (hsends : t.Sends P (.writeToNetwork packet))
    (hP : ∀ packetType src, P packetType src → Bound key packetType src) :
    AnnouncesHandshake packet ∨ ∃ packetType src, P packetType src ∧
      SealedFor K Held Bound key packetType packet := by
  rcases hsends packet rfl with hhandshake | ⟨s, packetType, src, hkey, hcounter, hsrc, hpacket⟩
  · exact .inl hhandshake
  · have hheld := h.held key _ ((sealsFor_setTunnel hpeer).mpr hkey)
    exact .inr ⟨packetType, src, hsrc, s, src, hheld, hcounter, hP _ _ hsrc, hpacket⟩

theorem Confined.handedOut {P : MessageType → Bytes → Prop} {packet : Bytes}
    (h : (d.setTunnel key peer t w).Confined Held route Bound)
    (hpeer : d.peers.peerByKey key = some peer) (hsends : t.Sends P (.writeToNetwork packet))
    (hP : ∀ packetType src, P packetType src → Bound key packetType src) :
    HandedOut K Held Bound key packet :=
  (h.sealed hpeer hsends hP).imp id fun ⟨packetType, _, _, hsealed⟩ => ⟨packetType, hsealed⟩

theorem encapsulateWithType_confined {packetType : MessageType} {src : Bytes} {r : TunnResult}
    (hd : d.Confined Held route Bound) (hpeer : d.peers.peerByKey key = some peer)
    (hcall : peer.tunnel.encapsulateWithType packetType src maxPacketSize d.world = .ok (r, t, w))
    (hbound : Bound key packetType src) :
    (d.setTunnel key peer t w).Confined Held route Bound ∧
      ∀ packet, r = .writeToNetwork packet →
        AnnouncesHandshake packet ∨ SealedFor K Held Bound key packetType packet := by
  have hP : ∀ p src', p = packetType ∧ src' = src → Bound key p src' := by
    rintro _ _ ⟨rfl, rfl⟩
    exact hbound
  have hd' : (d.setTunnel key peer t w).Confined Held route Bound :=
    hd.setTunnel hpeer (.encapsulate hcall) (Tunn.encapsulateWithType_keeps hcall)
      (Tunn.encapsulateWithType_queues hcall) hP
  refine ⟨hd', ?_⟩
  rintro packet rfl
  rcases hd'.sealed hpeer (Tunn.encapsulateWithType_sends_current hcall) hP with
    hhandshake | ⟨_, _, ⟨rfl, -⟩, hsealed⟩
  · exact .inl hhandshake
  · exact .inr hsealed

theorem encapsulateRelay_confines {relay : PublicKey} {envelope : Bytes} {r : TunnResult}
    (hd : d.Confined Held route Bound) (hpeer : d.peers.peerByKey relay = some peer)
    (hcall : peer.tunnel.encapsulateRelay envelope maxPacketSize d.world = .ok (r, t, w))
    (hbound : Bound relay MessageType.relayData envelope) :
    (d.setTunnel relay peer t w).Confined Held route Bound ∧ ∀ packet, r = .writeToNetwork packet →
      Confines K Held route Bound (sendPendingPacket (peer.endpoint.map (packet, ·))) := by
  obtain ⟨hd', hsealed⟩ := encapsulateWithType_confined hd hpeer hcall hbound
  refine ⟨hd', fun packet hr => Confines.pending fun addr haddr => ?_⟩
  have hknown : route relay = some (peer.relay, some addr) := by
    rw [← hd.routed relay, routeOf, hpeer, Option.map_some, haddr]
  exact .toRelay hknown (hsealed packet hr)

theorem preparePacketToPeerViaRelay_confines {destination relay : PublicKey} {packet : Bytes}
    {pending : Option PendingUdpSend} (hd : d.Confined Held route Bound)
    (h : d.preparePacketToPeerViaRelay destination relay packet = .ok (pending, d'))
    (hbound : ∀ envelope, Relay.buildEnvelope maxPacketSize destination packet = .ok envelope →
      Bound relay MessageType.relayData envelope) :
    d'.Confined Held route Bound ∧ Confines K Held route Bound (sendPendingPacket pending) := by
  rw [preparePacketToPeerViaRelay] at h
  split at h
  · cases h
    exact ⟨hd, .nil⟩
  rename_i envelope henvelope
  obtain ⟨⟨dropped, d₁⟩, hdrop, h⟩ := bind_ok_iff.mp h
  have hd₁ := hd.dropExpired hdrop
  dsimp only at h
  split at h
  · cases h
    exact ⟨hd₁, .nil⟩
  rename_i relayPeer hpeer
  obtain ⟨⟨r, t, w⟩, hcall, h⟩ := bind_ok_iff.mp h
  obtain ⟨hd₂, hsent⟩ := encapsulateRelay_confines hd₁ hpeer hcall (hbound envelope henvelope)
  cases r with
  | writeToNetwork sent =>
    cases h
    exact ⟨hd₂, hsent sent rfl⟩
  | done | err =>
    cases h
    exact ⟨hd₂, .nil⟩
  | writeToInterfaceV4 | writeToInterfaceV6 => cases h

theorem preparePacketToPeer_confines (henvelops : Envelops K Held route Bound) {packet : Bytes}
    {pending : Option PendingUdpSend} (hd : d.Confined Held route Bound)
    (h : d.preparePacketToPeer key packet = .ok (pending, d'))
    (hpacket : HandedOut K Held Bound key packet) :
    d'.Confined Held route Bound ∧ Confines K Held route Bound (sendPendingPacket pending) := by
  rw [preparePacketToPeer] at h
  split at h
  · cases h
    exact ⟨hd, .nil⟩
  rename_i peer hpeer
  have hroute : route key = some (peer.relay, peer.endpoint) := by
    rw [← hd.routed key, routeOf, hpeer, Option.map_some]
  split at h
  · rename_i relay hrelay
    rw [hrelay] at hroute
    exact preparePacketToPeerViaRelay_confines hd h fun envelope hbuild =>
      henvelops key relay peer.endpoint packet envelope hroute hpacket hbuild
  · rename_i hrelay
    cases h
    refine ⟨hd, .pending fun addr haddr => ?_⟩
    rw [hrelay, haddr] at hroute
    exact .direct hroute hpacket

theorem flushQueuedPackets_confines (henvelops : Envelops K Held route Bound) {fuel : ℕ}
    (hd : d.Confined Held route Bound)
    (h : flushQueuedPackets key fuel d = .ok (outputs, d')) :
    d'.Confined Held route Bound ∧ Confines K Held route Bound outputs := by
  induction fuel generalizing d outputs with
  | zero =>
    cases h
    exact ⟨hd, .nil⟩
  | succ fuel ih =>
    rw [flushQueuedPackets] at h
    split at h
    · cases h
      exact ⟨hd, .nil⟩
    rename_i peer hpeer
    obtain ⟨⟨r, t, w⟩, hcall, h⟩ := bind_ok_iff.mp h
    have hd₁ : (d.setTunnel key peer t w).Confined Held route Bound :=
      hd.setTunnel hpeer (.flush hcall) (Tunn.flushQueuedPacket_keeps hcall)
        (Tunn.flushQueuedPacket_queues hcall) fun _ _ h => h.elim
    cases r with
    | writeToNetwork packet =>
      obtain ⟨⟨pending, d₁⟩, hprepare, h⟩ := bind_ok_iff.mp h
      obtain ⟨⟨rest, d₂⟩, hrest, h⟩ := bind_ok_iff.mp h
      cases h
      -- What is flushed waited in the queue.
      have hpacket : HandedOut K Held Bound key packet := by
        obtain ⟨items, hpooled, hitems⟩ := hd.waits
        have hholds := hpooled.family.holds key
        rw [queueOf_of_peer hpeer] at hholds
        exact hd₁.handedOut hpeer
          (Tunn.flushQueuedPacket_sends_queued hpooled.wf hholds (hitems key) hcall) fun _ _ => id
      obtain ⟨hd₂, hsent⟩ := preparePacketToPeer_confines henvelops hd₁ hprepare hpacket
      obtain ⟨hd₃, hothers⟩ := ih hd₂ hrest
      exact ⟨hd₃, hsent.append hothers⟩
    | done | err | writeToInterfaceV4 | writeToInterfaceV6 =>
      cases h
      exact ⟨hd₁, .nil⟩

theorem finishUdpPacket_confines (henvelops : Envelops K Held route Bound) {r : TunnResult}
    (hd : d.Confined Held route Bound) (h : d.finishUdpPacket key peer r = .ok (outputs, d'))
    (hpacket : ∀ packet, r = .writeToNetwork packet → HandedOut K Held Bound key packet) :
    d'.Confined Held route Bound ∧ Confines K Held route Bound outputs := by
  cases r with
  | done | err =>
    cases h
    exact ⟨hd, .nil⟩
  | writeToNetwork packet =>
    obtain ⟨⟨pending, d₁⟩, hprepare, h⟩ := bind_ok_iff.mp h
    obtain ⟨⟨rest, d₂⟩, hrest, h⟩ := bind_ok_iff.mp h
    cases h
    obtain ⟨hd₁, hsent⟩ := preparePacketToPeer_confines henvelops hd hprepare (hpacket packet rfl)
    obtain ⟨hd₂, hothers⟩ := flushQueuedPackets_confines henvelops hd₁ hrest
    exact ⟨hd₂, hsent.append hothers⟩
  | writeToInterfaceV4 packet addr | writeToInterfaceV6 packet addr =>
    obtain ⟨allowed, -, h⟩ := bind_ok_iff.mp h
    cases h
    refine ⟨hd, fun sent addr hmem => ?_⟩
    split at hmem
    · cases List.mem_singleton.mp hmem
    · cases hmem

/-! ### Handlers -/

def RoutesTo (d : Device K N BYTES) (src : Bytes) (key : PublicKey) : Prop :=
  ∃ addr, IpPacket.dstAddress src = some addr ∧ d.peers.peersByIp.find addr = .ok (some key)

theorem handleTunPacket_confines (henvelops : Envelops K Held route Bound) {src : Bytes}
    (hd : d.Confined Held route Bound) (h : d.handleTunPacket src = .ok (outputs, d'))
    (hbound : ∀ key, d.RoutesTo src key → Bound key MessageType.data src) :
    d'.Confined Held route Bound ∧ Confines K Held route Bound outputs := by
  rw [handleTunPacket] at h
  split at h
  · cases h
    exact ⟨hd, .nil⟩
  rename_i dstAddr haddr
  obtain ⟨found, hfind, h⟩ := bind_ok_iff.mp h
  cases found with
  | none =>
    cases h
    exact ⟨hd, .nil⟩
  | some publicKey =>
    have hrouted : d.RoutesTo src publicKey := ⟨dstAddr, haddr, hfind⟩
    obtain ⟨⟨dropped, d₁⟩, hdrop, h⟩ := bind_ok_iff.mp h
    have hd₁ := hd.dropExpired hdrop
    dsimp only at h
    split at h
    · cases h
      exact ⟨hd₁, .nil⟩
    rename_i peer hpeer
    obtain ⟨⟨r, t, w⟩, hcall, h⟩ := bind_ok_iff.mp h
    obtain ⟨hd₂, hsealed⟩ :=
      encapsulateWithType_confined hd₁ hpeer hcall (hbound publicKey hrouted)
    cases r with
    | done | err =>
      cases h
      exact ⟨hd₂, .nil⟩
    | writeToNetwork packet =>
      obtain ⟨⟨pending, d₂⟩, hprepare, h⟩ := bind_ok_iff.mp h
      cases h
      have hpacket : HandedOut K Held Bound publicKey packet :=
        (hsealed packet rfl).imp id fun hsealed => ⟨_, hsealed⟩
      exact preparePacketToPeer_confines henvelops hd₂ hprepare hpacket
    | writeToInterfaceV4 | writeToInterfaceV6 => cases h

theorem timerLoop_confines (henvelops : Envelops K Held route Bound)
    (hkeepalive : ∀ key, Bound key MessageType.data []) {keys : List PublicKey}
    (hd : d.Confined Held route Bound) (h : timerLoop keys d = .ok (outputs, d')) :
    d'.Confined Held route Bound ∧ Confines K Held route Bound outputs := by
  induction keys generalizing d outputs with
  | nil =>
    cases h
    exact ⟨hd, .nil⟩
  | cons key keys ih =>
    obtain ⟨⟨dropped, d₁⟩, hdrop, h⟩ := bind_ok_iff.mp h
    have hd₁ := hd.dropExpired hdrop
    dsimp only at h
    split at h
    · exact ih hd₁ h
    rename_i peer hpeer
    obtain ⟨⟨r, t, w⟩, hcall, h⟩ := bind_ok_iff.mp h
    have hmoves : Moves False d₁ (d₁.setTunnel key peer t w) :=
      Move.moves (.tunnel hpeer (.timers hcall))
    have hP : ∀ packetType src, packetType = MessageType.data ∧ src = [] →
        Bound key packetType src := by
      rintro _ _ ⟨rfl, rfl⟩
      exact hkeepalive key
    -- Sessions may end here, but none begins.
    have hd₂ : (d₁.setTunnel key peer t w).Confined Held route Bound :=
      { held := by
          intro k sendingKey hkey
          by_cases hk : k = key
          · subst hk
            have hold := Tunn.updateTimers_sealsWith hcall ((sealsFor_setTunnel hpeer).mp hkey)
            exact hd₁.held k sendingKey ⟨peer, hpeer, hold⟩
          · exact hd₁.held k sendingKey ((sealsFor_setTunnel_ne hk).mp hkey)
        routed := fun k => (hmoves.routeOf k).trans (hd₁.routed k)
        waits := hd₁.waits.setTunnel hpeer (Tunn.updateTimers_queues hcall)
          fun v => hP v.packetType v.data }
    cases r with
    | done | err => exact ih hd₂ h
    | writeToNetwork packet =>
      obtain ⟨⟨pending, d₂⟩, hprepare, h⟩ := bind_ok_iff.mp h
      obtain ⟨⟨rest, d₃⟩, hrest, h⟩ := bind_ok_iff.mp h
      cases h
      have hpacket : HandedOut K Held Bound key packet :=
        hd₂.handedOut hpeer (Tunn.updateTimers_sends_keepalive hcall) hP
      obtain ⟨hd₃, hsent⟩ := preparePacketToPeer_confines henvelops hd₂ hprepare hpacket
      obtain ⟨hd₄, hothers⟩ := ih hd₃ hrest
      exact ⟨hd₄, hsent.append hothers⟩
    | writeToInterfaceV4 | writeToInterfaceV6 => cases h

inductive HandsOver (route : PublicKey → Option (Option PublicKey × Option SocketAddr))
    (authorizer : PublicKey → PublicKey → Bool) (submitter : PublicKey) (plaintext : Bytes) :
    Bytes → SocketAddr → Prop
  | inner {e : Relay.Envelope} {addr : SocketAddr}
      (parsed : Relay.Envelope.parse plaintext = .ok e)
      (valid : Relay.validateInnerPacket e.innerPacket = .ok ())
      (authorized : authorizer submitter e.destination = true)
      (known : route e.destination = some (none, some addr)) :
      HandsOver route authorizer submitter plaintext e.innerPacket addr

def PassesOn (route : PublicKey → Option (Option PublicKey × Option SocketAddr))
    (authorizer : PublicKey → PublicKey → Bool) (submitter : PublicKey) (plaintext : Bytes)
    (relay : PublicKey) (envelope : Bytes) : Prop :=
  ∃ e endpoint e', Relay.Envelope.parse plaintext = .ok e ∧
    authorizer submitter e.destination = true ∧ route e.destination = some (some relay, endpoint) ∧
    e.decrementHopLimit = .ok e' ∧ envelope = e'.bytes

theorem forwardEnvelope_confines {plaintext : Bytes} (hd : d.Confined Held route Bound)
    (h : d.forwardEnvelope key plaintext = .ok (outputs, d'))
    (hbound : ∀ relay envelope, PassesOn route d.forwardingAuthorizer key plaintext relay envelope →
      Bound relay MessageType.relayData envelope) :
    d'.Confined Held route Bound ∧ ∀ packet addr, Output.udp packet addr ∈ outputs →
      SentTo K Held route Bound packet addr ∨
        HandsOver route d.forwardingAuthorizer key plaintext packet addr := by
  have hsilent : ∀ packet addr, Output.udp packet addr ∈ [] →
      SentTo K Held route Bound packet addr ∨
        HandsOver route d.forwardingAuthorizer key plaintext packet addr :=
    fun packet addr hmem => absurd hmem List.not_mem_nil
  rw [forwardEnvelope] at h
  split at h
  · cases h
    exact ⟨hd, hsilent⟩
  rename_i envelope hparse
  split at h
  · cases h
    exact ⟨hd, hsilent⟩
  rename_i hvalid
  dsimp only at h
  split at h
  · cases h
    exact ⟨hd, hsilent⟩
  rename_i hauthorized
  rw [Bool.not_eq_true, Bool.not_eq_false'] at hauthorized
  split at h
  · rename_i relay hnext
    obtain ⟨destination, hdestination, hrelay⟩ := Option.bind_eq_some_iff.mp hnext
    have hroute : route envelope.destination = some (some relay, destination.endpoint) := by
      rw [← hd.routed, routeOf, hdestination, Option.map_some, hrelay]
    obtain ⟨⟨dropped, d₁⟩, hdrop, h⟩ := bind_ok_iff.mp h
    have hd₁ := hd.dropExpired hdrop
    dsimp only at h
    split at h
    · cases h
      exact ⟨hd₁, hsilent⟩
    rename_i relayPeer hpeer
    split at h
    · cases h
      exact ⟨hd₁, hsilent⟩
    rename_i next hdecrement
    obtain ⟨⟨r, t, w⟩, hcall, h⟩ := bind_ok_iff.mp h
    have hpasses : PassesOn route d.forwardingAuthorizer key plaintext relay next.bytes :=
      ⟨envelope, _, next, hparse, hauthorized, hroute, hdecrement, rfl⟩
    obtain ⟨hd₂, hsent⟩ := encapsulateRelay_confines hd₁ hpeer hcall (hbound relay _ hpasses)
    cases r with
    | writeToNetwork sent =>
      cases h
      exact ⟨hd₂, fun packet addr hmem => .inl (hsent sent rfl packet addr hmem)⟩
    | done | err =>
      cases h
      exact ⟨hd₂, hsilent⟩
    | writeToInterfaceV4 | writeToInterfaceV6 => cases h
  · rename_i addr hrelay haddr
    cases h
    obtain ⟨destination, hdestination, hendpoint⟩ := Option.bind_eq_some_iff.mp haddr
    have hroute : route envelope.destination = some (none, some addr) := by
      rw [hdestination] at hrelay
      rw [← hd.routed, routeOf, hdestination, Option.map_some, hendpoint]
      exact congrArg (fun relay => some (relay, some addr)) hrelay
    refine ⟨hd, fun packet addr' hmem => .inr ?_⟩
    cases List.mem_singleton.mp hmem
    exact .inner hparse hvalid hauthorized hroute
  · cases h
    exact ⟨hd, hsilent⟩

/-! ### Runs -/

def Submits (d : Device K N BYTES) (e : Event) (submitter : PublicKey) (plaintext : Bytes) : Prop :=
  ∃ datagram fits src p, e = .udpPacket datagram fits src ∧
    parseIncomingPacket datagram = .ok (.relayData p) ∧
    d.peers.peerKeyByIndex p.receiverIdx = some submitter ∧
    d.opens (.relayData p) = some plaintext

def Holds (d d' : Device K N BYTES) (key : PublicKey) (sendingKey : Bytes) : Prop :=
  d.SealsFor key sendingKey ∨ d'.SealsFor key sendingKey

section Boarding

variable (d₀ : Device K N BYTES) (events : List Event)

/-- What is bound for a peer after the events, and why. -/
inductive Boarded : PublicKey → MessageType → Bytes → Prop
  | keepalive (key : PublicKey) : Boarded key MessageType.data []
  | fromInterface {key : PublicKey} {src : Bytes}
      (read : Machine.Happened step
        (fun d e _ => (∃ fits, e = .tunPacket src fits) ∧ d.RoutesTo src key) d₀ events) :
      Boarded key MessageType.data src
  | wrapHandshake {key relay : PublicKey} {packet envelope : Bytes}
      (handshake : AnnouncesHandshake packet)
      (relayed : Machine.Happened step (fun _ _ d' => d'.relayOf key = some relay) d₀ events)
      (built : Relay.buildEnvelope maxPacketSize key packet = .ok envelope) :
      Boarded relay MessageType.relayData envelope
  | wrap {key relay : PublicKey} {s : Session} {packetType : MessageType} {src envelope : Bytes}
      (inner : Boarded key packetType src) (counter : s.sendingKeyCounter < rejectAfterMessages)
      (relayed : Machine.Happened step
        (fun d _ d' => d'.relayOf key = some relay ∧ d.Holds d' key s.sendingKey) d₀ events)
      (built : Relay.buildEnvelope maxPacketSize key (s.datagram K packetType src) =
        .ok envelope) : Boarded relay MessageType.relayData envelope
  | forward {relay : PublicKey} {envelope : Bytes}
      (passedOn : Machine.Happened step
        (fun d e d' => ∃ submitter plaintext, d.Submits e submitter plaintext ∧
          PassesOn d'.routeOf d.forwardingAuthorizer submitter plaintext relay envelope)
        d₀ events) : Boarded relay MessageType.relayData envelope

/-- What a device sends to the network in the last of the events, which takes it from `d` to `d'`. -/
inductive Leaves (d : Device K N BYTES) (e : Event) (d' : Device K N BYTES) :
    Bytes → SocketAddr → Prop
  | sent {packet : Bytes} {addr : SocketAddr}
      (sent : SentTo K (d.Holds d') d'.routeOf (Boarded d₀ events) packet addr) :
      Leaves d e d' packet addr
  | cookie {datagram cookie : Bytes} {fits : datagram.length ≤ maxPacketSize} {src : SocketAddr}
      (arrived : e = .udpPacket datagram fits src)
      (challenge : RateLimiter.Challenges K d.rateLimiter.mac1Key datagram cookie) :
      Leaves d e d' cookie src.normalize
  | handedOver {submitter : PublicKey} {plaintext packet : Bytes} {addr : SocketAddr}
      (submitted : d.Submits e submitter plaintext)
      (handedOver : HandsOver d'.routeOf d.forwardingAuthorizer submitter plaintext packet addr) :
      Leaves d e d' packet addr

end Boarding

variable {d₀ : Device K N BYTES} {events : List Event}

theorem Boarded.append {packetType : MessageType} {src : Bytes}
    (h : Boarded d₀ events key packetType src) (later : List Event) :
    Boarded d₀ (events ++ later) key packetType src := by
  induction h with
  | keepalive key => exact .keepalive key
  | fromInterface read => exact .fromInterface (read.append later)
  | wrapHandshake handshake relayed built =>
    exact .wrapHandshake handshake (relayed.append later) built
  | wrap _ counter relayed built ih => exact .wrap ih counter (relayed.append later) built
  | forward passedOn => exact .forward (passedOn.append later)

theorem Waits.mono {Q Q' : PublicKey → QueuedPacket → Prop} (h : d.Waits Q)
    (hQ : ∀ key v, Q key v → Q' key v) : d.Waits Q' := by
  obtain ⟨items, hpooled, hitems⟩ := h
  exact ⟨items, hpooled, fun key v hv => hQ key v (hitems key v hv)⟩

theorem relayOf_of_routeOf {relay : PublicKey} {endpoint : Option SocketAddr}
    (h : d.routeOf key = some (some relay, endpoint)) : d.relayOf key = some relay := by
  obtain ⟨peer, hpeer, hroute⟩ := Option.map_eq_some_iff.mp h
  rw [relayOf, hpeer, Option.bind_some]
  exact congrArg Prod.fst hroute

theorem boarded_envelops {sent : List (List Output)} {e : Event}
    (hrun : Machine.run step d₀ events = .ok (sent, d)) (hstep : d.step e = .ok (outputs, d')) :
    Envelops K (d.Holds d') d'.routeOf (Boarded d₀ (events ++ [e])) := by
  intro key relay endpoint packet envelope hroute hpacket hbuild
  have hrelay := relayOf_of_routeOf hroute
  rcases hpacket with hhandshake | ⟨packetType, s, src, hheld, hcounter, hsrc, rfl⟩
  · exact .wrapHandshake hhandshake (.last hrun hstep hrelay) hbuild
  · exact .wrap hsrc hcounter (.last hrun hstep ⟨hrelay, hheld⟩) hbuild

theorem handleRelayData_confines {p : Data} {src : SocketAddr} {submitter : PublicKey}
    {Held : PublicKey → Bytes → Prop}
    {route : PublicKey → Option (Option PublicKey × Option SocketAddr)}
    {Bound : PublicKey → MessageType → Bytes → Prop}
    (hd : d.Confined Held route Bound)
    (h : d.handleAttributedPacket submitter src (.relayData p) = .ok (outputs, d'))
    (hbound : ∀ peer plaintext t, d.peers.peerByKey submitter = some peer →
      peer.tunnel.handleVerifiedRelayPacket (.relayData p) maxPacketSize = .ok (.ok plaintext, t) →
      ∀ relay envelope, PassesOn route d.forwardingAuthorizer submitter plaintext relay envelope →
        Bound relay MessageType.relayData envelope) :
    d'.Confined Held route Bound ∧ ∀ packet addr, Output.udp packet addr ∈ outputs →
      SentTo K Held route Bound packet addr ∨ ∃ peer plaintext t,
        d.peers.peerByKey submitter = some peer ∧
        peer.tunnel.handleVerifiedRelayPacket (.relayData p) maxPacketSize =
          .ok (.ok plaintext, t) ∧
        HandsOver route d.forwardingAuthorizer submitter plaintext packet addr := by
  rw [handleAttributedPacket] at h
  split at h
  · cases h
    exact ⟨hd, fun packet addr hmem => absurd hmem List.not_mem_nil⟩
  rename_i peer hpeer
  obtain ⟨⟨r, t⟩, hcall, h⟩ := bind_ok_iff.mp h
  have hd₁ : (d.setTunnel submitter peer t d.world).Confined Held route Bound :=
    hd.setTunnel hpeer (.receiveRelay hcall) (Tunn.decryptRawData_keeps hcall)
      ((Tunn.handleVerifiedRelayPacket_sameQueue hcall _).queues fun _ _ => False)
      fun _ _ h => h.elim
  cases r with
  | error e =>
    cases h
    exact ⟨hd₁, fun packet addr hmem => absurd hmem List.not_mem_nil⟩
  | ok plaintext =>
    obtain ⟨hd₂, hsent⟩ := forwardEnvelope_confines hd₁ h (hbound peer plaintext t hpeer hcall)
    refine ⟨hd₂, fun packet addr hmem => ?_⟩
    rcases hsent packet addr hmem with hsent | hhanded
    · exact .inl hsent
    · exact .inr ⟨peer, plaintext, t, hpeer, hcall, hhanded⟩

theorem handleVerified_confines {packet : Packet} {src : SocketAddr}
    (hpacket : ∀ p, packet ≠ .relayData p)
    {Bound : PublicKey → MessageType → Bytes → Prop}
    (hkeepalive : ∀ key, Bound key MessageType.data [])
    (hwaits : d.Waits fun key v => Bound key v.packetType v.data)
    (h : d.handleAttributedPacket key src packet = .ok (outputs, d'))
    (henvelops : Envelops K (fun key sendingKey => d'.SealsFor key sendingKey) d'.routeOf Bound) :
    (d'.Waits fun key v => Bound key v.packetType v.data) ∧
      Confines K (fun key sendingKey => d'.SealsFor key sendingKey) d'.routeOf Bound outputs := by
  rw [handleAttributedPacket] at h
  split at h
  · cases h
    exact ⟨hwaits, .nil⟩
  rename_i peer hpeer
  split at h
  · rename_i p
    exact absurd rfl (hpacket p)
  obtain ⟨⟨r, t, w⟩, hcall, h⟩ := bind_ok_iff.mp h
  have hwaits₁ : (d.setTunnel key peer t w).Waits fun key v => Bound key v.packetType v.data :=
    hwaits.setTunnel hpeer ((Tunn.handleVerifiedPacket_sameQueue hcall).queues fun _ _ => False)
      fun _ h => h.elim
  -- Wherever the endpoint moves, the tunnel is the one that has answered.
  have hfinish : ∀ d₁ : Device K N BYTES, d₁.queueOf = (d.setTunnel key peer t w).queueOf →
      d₁.world = w →
      (∀ sendingKey, t.SealsWith sendingKey → d₁.SealsFor key sendingKey) →
      d₁.finishUdpPacket key { peer with tunnel := t } r = .ok (outputs, d') →
      (d'.Waits fun key v => Bound key v.packetType v.data) ∧
        Confines K (fun key sendingKey => d'.SealsFor key sendingKey) d'.routeOf Bound outputs := by
    intro d₁ hqueue hworld htunnel hfinish
    have hquiet := finishUdpPacket_quiet hfinish
    have hd₁ : d₁.Confined (fun key sendingKey => d'.SealsFor key sendingKey) d'.routeOf Bound :=
      { held := fun k sendingKey hkey => (hquiet.sessions k sendingKey).mpr hkey
        routed := fun k => (hquiet.moves.routeOf k).symm
        waits := hwaits₁.congr hqueue (congrArg World.pool hworld) }
    obtain ⟨hd', hsent⟩ := finishUdpPacket_confines henvelops hd₁ hfinish (by
      rintro packet rfl
      rcases Tunn.handleVerifiedPacket_sends_keepalive hcall packet rfl with
        hhandshake | ⟨s, packetType, src, hkey, hcounter, ⟨rfl, rfl⟩, hpacket⟩
      · exact .inl hhandshake
      · exact .inr ⟨_, s, _, hd₁.held key _ (htunnel _ hkey), hcounter, hkeepalive key, hpacket⟩)
    exact ⟨hd'.waits, hsent⟩
  have hsealed : ∀ sendingKey, t.SealsWith sendingKey →
      (d.setTunnel key peer t w).SealsFor key sendingKey :=
    fun sendingKey => (sealsFor_setTunnel hpeer).mpr
  dsimp only at h
  split at h
  · refine hfinish _ (setEndpoint_queueOf (setTunnel_peerByKey hpeer t w) src) rfl ?_ h
    intro sendingKey hkey
    have hmem := Bounded.mem_of_lookup (setTunnel_peerByKey hpeer t w)
    exact ⟨_, Bounded.lookup_replace_self _ hmem, hkey⟩
  · exact hfinish _ rfl rfl hsealed h

theorem handleRelayData_moves {p : Data} {src : SocketAddr} {submitter : PublicKey}
    (h : d.handleAttributedPacket submitter src (.relayData p) = .ok (outputs, d')) :
    Moves False d d' := by
  rw [handleAttributedPacket] at h
  split at h
  · cases h
    exact .refl
  rename_i peer hpeer
  obtain ⟨⟨r, t⟩, hcall, h⟩ := bind_ok_iff.mp h
  have hmove : Move False d (d.setTunnel submitter peer t d.world) :=
    .tunnel hpeer (.receiveRelay hcall)
  cases r with
  | error e =>
    cases h
    exact hmove.moves
  | ok plaintext => exact .head hmove (forwardEnvelope_moves h)

theorem SealedFor.mono {Held Held' : PublicKey → Bytes → Prop}
    {Bound : PublicKey → MessageType → Bytes → Prop} {packetType : MessageType} {packet : Bytes}
    (h : SealedFor K Held Bound key packetType packet) (hheld : ∀ k, Held key k → Held' key k) :
    SealedFor K Held' Bound key packetType packet := by
  obtain ⟨s, src, hkey, hrest⟩ := h
  exact ⟨s, src, hheld _ hkey, hrest⟩

theorem HandedOut.mono {Held Held' : PublicKey → Bytes → Prop}
    {Bound : PublicKey → MessageType → Bytes → Prop} {packet : Bytes}
    (h : HandedOut K Held Bound key packet) (hheld : ∀ k, Held key k → Held' key k) :
    HandedOut K Held' Bound key packet :=
  h.imp id fun ⟨packetType, hsealed⟩ => ⟨packetType, hsealed.mono hheld⟩

theorem SentTo.mono {Held Held' : PublicKey → Bytes → Prop}
    {route : PublicKey → Option (Option PublicKey × Option SocketAddr)}
    {Bound : PublicKey → MessageType → Bytes → Prop} {packet : Bytes} {addr : SocketAddr}
    (h : SentTo K Held route Bound packet addr) (hheld : ∀ key k, Held key k → Held' key k) :
    SentTo K Held' route Bound packet addr := by
  cases h with
  | @direct key _ _ known handedOut => exact .direct known (handedOut.mono (hheld key))
  | toRelay known sent => exact .toRelay known (sent.imp_right (·.mono (hheld _)))

theorem verifyPacket_quiet {src : Option IpAddr} {datagram : Bytes} {rateLimiter : RateLimiter}
    {answer : Except TunnResult Packet}
    (verified : d.rateLimiter.verifyPacket src datagram maxPacketSize d.world =
      (answer, rateLimiter, w)) : Quiet d { d with rateLimiter := rateLimiter, world := w } where
  moves := by
    have hmoves : Moves False d _ := verifyPacket_moves d src datagram maxPacketSize
    rwa [verified] at hmoves
  sessions _ _ := Iff.rfl

theorem handleUdpPacket_confines {sent : List (List Output)} {datagram : Bytes}
    {fits : datagram.length ≤ maxPacketSize} {src : SocketAddr}
    (hrun : Machine.run step d₀ events = .ok (sent, d))
    (hstep : d.step (.udpPacket datagram fits src) = .ok (outputs, d'))
    (hwaits : d.Waits fun key v =>
      Boarded d₀ (events ++ [.udpPacket datagram fits src]) key v.packetType v.data) :
    (d'.Waits fun key v =>
        Boarded d₀ (events ++ [.udpPacket datagram fits src]) key v.packetType v.data) ∧
      ∀ packet addr, Output.udp packet addr ∈ outputs →
        Leaves d₀ (events ++ [.udpPacket datagram fits src]) d (.udpPacket datagram fits src) d'
          packet addr := by
  have hpool := d.rateLimiter.verifyPacket_pool (some src.normalize.ip) datagram maxPacketSize d.world
  cases handleUdpPacket_handling hstep with
  | dropped verified unattributed =>
    rw [verified] at hpool
    exact ⟨hwaits.congr rfl hpool, fun packet addr hmem => absurd hmem List.not_mem_nil⟩
  | challenged verified =>
    rw [verified] at hpool
    refine ⟨hwaits.congr rfl hpool, fun packet addr hmem => ?_⟩
    cases List.mem_singleton.mp hmem
    exact .cookie rfl (RateLimiter.verifyPacket_challenges verified)
  | @attributed packet key _ _ _ d₁ _ _ verified attribution expired handled =>
    rw [verified] at hpool
    have hparse : parseIncomingPacket datagram = .ok packet :=
      RateLimiter.verifyPacket_ok (congrArg Prod.fst verified)
    have hquiet : Quiet d d₁ := (verifyPacket_quiet verified).trans
      (dropExpiredPacketQueues_quiet expired)
    have hwaits₁ := (dropExpiredPacketQueues_waits expired (hwaits.congr rfl hpool)).1
    have henvelops := boarded_envelops hrun hstep
    by_cases hrelay : ∃ p, packet = .relayData p
    · obtain ⟨p, rfl⟩ := hrelay
      have hmoves := hquiet.moves.trans (handleRelayData_moves handled)
      have hd₁ : d₁.Confined (d.Holds d') d'.routeOf
          (Boarded d₀ (events ++ [.udpPacket datagram fits src])) :=
        { held := fun k sendingKey hkey => .inl ((hquiet.sessions k sendingKey).mp hkey)
          routed := fun k => ((handleRelayData_moves handled).routeOf k).symm
          waits := hwaits₁ }
      have hqueues : QueuesOnly d d₁ := fun key peer' hpeer' =>
        dropExpiredPacketQueues_queuesOnly expired key peer' hpeer'
      have hsubmits : ∀ peer plaintext t, d₁.peers.peerByKey key = some peer →
          peer.tunnel.handleVerifiedRelayPacket (.relayData p) maxPacketSize =
            .ok (.ok plaintext, t) → d.Submits (.udpPacket datagram fits src) key plaintext := by
        intro peer plaintext t hpeer hcall
        have hkey : d.peers.peerKeyByIndex p.receiverIdx = some key := Except.ok.inj attribution
        exact ⟨datagram, fits, src, p, rfl, hparse, hkey,
          opens_of_queuesOnly hkey hqueues hpeer hcall⟩
      obtain ⟨hd', hsent⟩ := handleRelayData_confines hd₁ handled (by
        intro peer plaintext t hpeer hcall relay envelope hpasses
        rw [hquiet.moves.authorizer] at hpasses
        exact .forward
          (.last hrun hstep ⟨key, plaintext, hsubmits peer plaintext t hpeer hcall, hpasses⟩))
      refine ⟨hd'.waits, fun packet addr hmem => ?_⟩
      rcases hsent packet addr hmem with hsent | ⟨peer, plaintext, t, hpeer, hcall, hhanded⟩
      · exact .sent hsent
      · rw [hquiet.moves.authorizer] at hhanded
        exact .handedOver (hsubmits peer plaintext t hpeer hcall) hhanded
    · obtain ⟨hwaits', hsent⟩ := handleVerified_confines (fun p hp => hrelay ⟨p, hp⟩) .keepalive
        hwaits₁ handled fun k relay endpoint packet envelope hroute hpacket =>
          henvelops k relay endpoint packet envelope hroute (hpacket.mono fun _ => .inr)
      exact ⟨hwaits', fun packet addr hmem =>
        .sent ((hsent packet addr hmem).mono fun _ _ => .inr)⟩

theorem step_confines {sent : List (List Output)} {e : Event}
    (hrun : Machine.run step d₀ events = .ok (sent, d)) (hstep : d.step e = .ok (outputs, d'))
    (hwaits : d.Waits fun key v => Boarded d₀ events key v.packetType v.data) :
    (d'.Waits fun key v => Boarded d₀ (events ++ [e]) key v.packetType v.data) ∧
      ∀ packet addr, Output.udp packet addr ∈ outputs →
        Leaves d₀ (events ++ [e]) d e d' packet addr := by
  have hwaits₀ : d.Waits fun key v => Boarded d₀ (events ++ [e]) key v.packetType v.data :=
    hwaits.mono fun key v h => h.append [e]
  have henvelops := boarded_envelops hrun hstep
  have hbefore : Moves False d d' → d.Confined (d.Holds d') d'.routeOf
      (Boarded d₀ (events ++ [e])) := fun hmoves =>
    { held := fun _ _ => .inl
      routed := fun key => (hmoves.routeOf key).symm
      waits := hwaits₀ }
  cases e with
  | tunPacket src fits =>
    obtain ⟨hd', hsent⟩ := handleTunPacket_confines henvelops
      (hbefore (handleTunPacket_moves hstep)) hstep fun key hroutes =>
        .fromInterface (.last hrun hstep ⟨⟨fits, rfl⟩, hroutes⟩)
    exact ⟨hd'.waits, fun packet addr hmem => .sent (hsent packet addr hmem)⟩
  | udpPacket datagram fits src => exact handleUdpPacket_confines hrun hstep hwaits₀
  | tick order =>
    obtain ⟨⟨sentNow, d₁⟩, hticks, h⟩ := bind_ok_iff.mp hstep
    have hpool := congrArg World.pool (d₁.rateLimiter.resetCount_world d₁.world)
    -- Resetting the rate limiter only reads the clock.
    have hend : sentNow = outputs ∧ d₁.queueOf = d'.queueOf ∧ d'.world.pool = d₁.world.pool := by
      dsimp only at h
      split at h
      · cases h
        exact ⟨rfl, rfl, hpool⟩
      · cases h
        exact ⟨rfl, rfl, rfl⟩
    obtain ⟨rfl, hqueue, hpool⟩ := hend
    obtain ⟨hd₁, hsent⟩ := timerLoop_confines henvelops .keepalive
      (hbefore (tick_moves hstep)) hticks
    exact ⟨hd₁.waits.congr hqueue.symm hpool, fun packet addr hmem => .sent (hsent packet addr hmem)⟩
  | command c =>
    obtain ⟨⟨completion, d₁⟩, hcall, h⟩ := bind_ok_iff.mp hstep
    cases h
    refine ⟨handlePeerUpdate_waits hcall hwaits₀, fun packet addr hmem => ?_⟩
    cases List.mem_singleton.mp hmem
  | reorder order =>
    cases hstep
    exact ⟨Waits.reorder hwaits₀ order, fun packet addr hmem => absurd hmem List.not_mem_nil⟩

/-- Every datagram that a device sends, in any run, is a cookie reply to its sender, a handshake
message, the inner packet of an envelope that its submitter may have forwarded, or sealed for a peer
that it is bound for: and a packet from the interface is bound only for the peer that its destination
was routed to when it was read, and in envelopes for the relays of that peer. -/
theorem run_confines {profile : Profile} {config : Config K} {resources : Resources} {draws : Draws}
    {clock : ℕ → ℕ} {secrets : ℕ → K.Secret}
    (hnew : new profile config resources draws clock secrets = .ok (.ok d₀))
    {sent : List (List Output)} {e : Event}
    (hrun : Machine.run step d₀ events = .ok (sent, d)) (hstep : d.step e = .ok (outputs, d'))
    {packet : Bytes} {addr : SocketAddr} (hmem : Output.udp packet addr ∈ outputs) :
    Leaves d₀ (events ++ [e]) d e d' packet addr := by
  have hwaits : d.Waits fun key v => Boarded d₀ events key v.packetType v.data := by
    refine Machine.run_past (P := fun events d =>
      d.Waits fun key v => Boarded d₀ events key v.packetType v.data) ?_ ?_ hrun
    · exact ⟨fun _ => [], (new_pooled hnew).1, fun _ _ hv => absurd hv List.not_mem_nil⟩
    · intro past sent d e outputs d' hpast hwaits hstep
      exact (step_confines hpast hstep hwaits).1
  exact (step_confines hrun hstep hwaits).2 packet addr hmem

end Device

namespace Sample

open Device

def carriesPacket (addr : SocketAddr) : Output → Bool
  | .udp packet dst =>
    dst = addr && messageTypeOf packet = MessageType.data && packet.length = 64
  | _ => false

theorem run_confines_flush :
    ∃ (start d d' : Device Crypto.sample 8 8192) (sent : List (List Output))
      (outputs : List Output) (packet : Bytes),
      Machine.run step start [.tunPacket innerPacket length_innerPacket_le] = .ok (sent, d) ∧
      d.step (received (responseTo 1 5 [peerConfig 1 lan none]) (addr 5)) = .ok (outputs, d') ∧
      Output.udp packet (addr 5) ∈ outputs ∧ messageTypeOf packet = MessageType.data ∧
      packet.length = 64 ∧
      Leaves start [.tunPacket innerPacket length_innerPacket_le,
          received (responseTo 1 5 [peerConfig 1 lan none]) (addr 5)]
        d (received (responseTo 1 5 [peerConfig 1 lan none]) (addr 5)) d' packet (addr 5) := by
  have hsample : runAnd 1 [peerConfig 5 lan none] [.tunPacket innerPacket length_innerPacket_le]
      (fun (_, d) => okAnd (fun (outputs, _) => outputs.any (carriesPacket (addr 5)))
        (d.step (received (responseTo 1 5 [peerConfig 1 lan none]) (addr 5)))) = true := by
    decide +kernel
  obtain ⟨start, sent, d, hnew, hrun, hstep⟩ := exists_of_runAnd hsample
  obtain ⟨⟨outputs, d'⟩, hstep, hflushed⟩ := exists_of_okAnd hstep
  obtain ⟨output, hmem, hcarries⟩ := List.any_eq_true.mp hflushed
  cases output with
  | udp packet dst =>
    simp only [carriesPacket, Bool.and_eq_true, decide_eq_true_eq] at hcarries
    obtain ⟨⟨rfl, htype⟩, hlength⟩ := hcarries
    exact ⟨start, d, d', sent, outputs, packet, hrun, hstep, hmem, htype, hlength,
      run_confines hnew hrun hstep hmem⟩
  | nic | completion => cases hcarries

end Sample

end Tendrilix
