import Tendrilix.Device.TypeSeparation

/-!
# What reaches the interface

A device hands a packet to its interface for one reason only: a data packet that opens under a
session of a peer, and whose inner packet comes from an address that the device routes to that peer.
-/

namespace Tendrilix

open AllowedIps Noise

variable {K : Crypto} {N BYTES : ℕ}

/-! ### The inner packet -/

namespace Noise

structure Holds (plaintext packet : Bytes) (addr : IpAddr) : Prop where
  source : IpPacket.srcAddress plaintext = some addr
  truncated : ∃ len, Tunn.declaredLen plaintext = some len ∧ len ≤ plaintext.length ∧
    packet = plaintext.take len

def TunnResult.toInterface : TunnResult → Option (Bytes × IpAddr)
  | .writeToInterfaceV4 packet addr => some (packet, .v4 addr)
  | .writeToInterfaceV6 packet addr => some (packet, .v6 addr)
  | _ => none

namespace Tunn

variable {t t' : Tunn K} {w w' : World K N BYTES} {r : TunnResult} {plaintext packet : Bytes}
  {addr : IpAddr}

theorem validateDecapsulatedPacket_toInterface_iff (t : Tunn K) (plaintext packet : Bytes)
    (addr : IpAddr) :
    (t.validateDecapsulatedPacket plaintext).1.toInterface = some (packet, addr) ↔
      Holds plaintext packet addr := by
  constructor
  · intro h
    rw [validateDecapsulatedPacket] at h
    split at h
    · cases h
    split at h
    · cases h
    rename_i source hsource
    split at h
    · cases h
    rename_i len hlen
    split at h
    · cases h
    rename_i hfits
    cases source with
    | v4 a | v6 a =>
      cases h
      exact ⟨hsource, len, hlen, Nat.le_of_not_lt hfits, rfl⟩
  · rintro ⟨hsource, len, hlen, hfits, rfl⟩
    have hne : plaintext ≠ [] := by
      rintro rfl
      cases hsource
    rw [validateDecapsulatedPacket, if_neg hne, hsource]
    simp only [hlen, if_neg (Nat.not_lt.mpr hfits)]
    cases addr with
    | v4 a => rfl
    | v6 a => rfl

def Unwraps (t : Tunn K) (p : Data) (packet : Bytes) (addr : IpAddr) : Prop :=
  ∃ s s' plaintext, t.sessions (slotOf p.receiverIdx) = some s ∧
    s.receivePacketData K p maxPacketSize = .ok (.ok plaintext, s') ∧ Holds plaintext packet addr

theorem handleVerifiedPacket_toInterface {p : Packet}
    (h : t.handleVerifiedPacket p maxPacketSize w = .ok (r, t', w'))
    (hr : r.toInterface = some (packet, addr)) :
    ∃ data, p = .data data ∧ t.Unwraps data packet addr := by
  cases handleVerifiedPacket_cases h with
  | refuse | respond | misdirected | conclude | refuseCookie | cookie | reject | foreign => cases hr
  | @receive data plaintext t₁ _ _ hdecrypt hvalid =>
    obtain ⟨s, s', hs, hreceive, -⟩ := decryptRawData_ok hdecrypt
    have hanswer : (t₁.validateDecapsulatedPacket plaintext).1 = r := congrArg Prod.fst hvalid
    rw [← hanswer, validateDecapsulatedPacket_toInterface_iff] at hr
    exact ⟨data, rfl, s, s', plaintext, hs, hreceive, hr⟩

theorem handleVerifiedPacket_of_unwraps {p : Data} (hp : t.Unwraps p packet addr)
    (h : t.handleVerifiedPacket (.data p) maxPacketSize w = .ok (r, t', w')) :
    r.toInterface = some (packet, addr) := by
  obtain ⟨s, s', plaintext, hs, hreceive, hholds⟩ := hp
  simp only [handleVerifiedPacket, handleData, decryptRawData, hs, hreceive, ok_bind, pure_eq_ok] at h
  cases h
  exact (validateDecapsulatedPacket_toInterface_iff _ plaintext packet addr).mpr hholds

end Tunn

end Noise

/-! ### Outputs for the network -/

namespace Device

variable {d d' : Device K N BYTES} {outputs outputs' : List Output} {key : PublicKey} {packet : Bytes}

def Undelivered (outputs : List Output) : Prop := ∀ packet key, Output.nic packet key ∉ outputs

theorem Undelivered.nil : Undelivered [] := fun _ _ => List.not_mem_nil

theorem Undelivered.append (h : Undelivered outputs) (h' : Undelivered outputs') :
    Undelivered (outputs ++ outputs') := by
  intro packet key hmem
  rcases List.mem_append.mp hmem with hmem | hmem
  · exact h packet key hmem
  · exact h' packet key hmem

theorem Undelivered.udp (packet : Bytes) (addr : SocketAddr) : Undelivered [.udp packet addr] := by
  intro packet key hmem
  cases List.mem_singleton.mp hmem

theorem Undelivered.pending (pending : Option PendingUdpSend) :
    Undelivered (sendPendingPacket pending) := by
  cases pending with
  | none => exact .nil
  | some sent => exact .udp sent.1 sent.2

theorem handleTunPacket_undelivered {src : Bytes} (h : d.handleTunPacket src = .ok (outputs, d')) :
    Undelivered outputs := by
  rw [handleTunPacket] at h
  split at h
  · cases h
    exact .nil
  obtain ⟨route, -, h⟩ := bind_ok_iff.mp h
  split at h
  · cases h
    exact .nil
  obtain ⟨⟨dropped, d₁⟩, -, h⟩ := bind_ok_iff.mp h
  dsimp only at h
  split at h
  · cases h
    exact .nil
  obtain ⟨⟨r, t, w⟩, -, h⟩ := bind_ok_iff.mp h
  cases r with
  | done | err =>
    cases h
    exact .nil
  | writeToNetwork packet =>
    obtain ⟨⟨pending, d₂⟩, -, h⟩ := bind_ok_iff.mp h
    cases h
    exact .pending pending
  | writeToInterfaceV4 | writeToInterfaceV6 => cases h

theorem forwardEnvelope_undelivered {relayPlaintext : Bytes}
    (h : d.forwardEnvelope key relayPlaintext = .ok (outputs, d')) : Undelivered outputs := by
  rw [forwardEnvelope] at h
  split at h
  · cases h
    exact .nil
  split at h
  · cases h
    exact .nil
  dsimp only at h
  split at h
  · cases h
    exact .nil
  split at h
  · obtain ⟨⟨dropped, d₁⟩, -, h⟩ := bind_ok_iff.mp h
    dsimp only at h
    split at h
    · cases h
      exact .nil
    split at h
    · cases h
      exact .nil
    obtain ⟨⟨r, t, w⟩, -, h⟩ := bind_ok_iff.mp h
    cases r with
    | done | err =>
      cases h
      exact .nil
    | writeToNetwork packet =>
      cases h
      exact .pending _
    | writeToInterfaceV4 | writeToInterfaceV6 => cases h
  · cases h
    exact .udp _ _
  · cases h
    exact .nil

theorem flushQueuedPackets_undelivered {fuel : ℕ}
    (h : flushQueuedPackets key fuel d = .ok (outputs, d')) : Undelivered outputs := by
  induction fuel generalizing d outputs with
  | zero =>
    cases h
    exact .nil
  | succ fuel ih =>
    rw [flushQueuedPackets] at h
    split at h
    · cases h
      exact .nil
    obtain ⟨⟨r, t, w⟩, -, h⟩ := bind_ok_iff.mp h
    cases r with
    | writeToNetwork packet =>
      obtain ⟨⟨pending, d₁⟩, -, h⟩ := bind_ok_iff.mp h
      obtain ⟨⟨rest, d₂⟩, hrest, h⟩ := bind_ok_iff.mp h
      cases h
      exact (Undelivered.pending pending).append (ih hrest)
    | done | err | writeToInterfaceV4 | writeToInterfaceV6 =>
      cases h
      exact .nil

theorem timerLoop_undelivered {keys : List PublicKey} (h : timerLoop keys d = .ok (outputs, d')) :
    Undelivered outputs := by
  induction keys generalizing d outputs with
  | nil =>
    cases h
    exact .nil
  | cons key keys ih =>
    obtain ⟨⟨dropped, d₁⟩, -, h⟩ := bind_ok_iff.mp h
    dsimp only at h
    split at h
    · exact ih h
    obtain ⟨⟨r, t, w⟩, -, h⟩ := bind_ok_iff.mp h
    cases r with
    | done | err => exact ih h
    | writeToNetwork packet =>
      obtain ⟨⟨pending, d₂⟩, -, h⟩ := bind_ok_iff.mp h
      obtain ⟨⟨rest, d₃⟩, hrest, h⟩ := bind_ok_iff.mp h
      cases h
      exact (Undelivered.pending pending).append (ih hrest)
    | writeToInterfaceV4 | writeToInterfaceV6 => cases h

theorem tick_undelivered {order : List PublicKey} (h : d.tick order = .ok (outputs, d')) :
    Undelivered outputs := by
  obtain ⟨⟨sent, d₁⟩, hticks, h⟩ := bind_ok_iff.mp h
  dsimp only at h
  split at h
  · cases h
    exact timerLoop_undelivered hticks
  · cases h
    exact timerLoop_undelivered hticks

theorem finishUdpPacket_delivers_iff {peer : Peer K} {r : TunnResult}
    (h : d.finishUdpPacket key peer r = .ok (outputs, d')) {k : PublicKey} :
    Output.nic packet k ∈ outputs ↔ k = key ∧ ∃ addr, r.toInterface = some (packet, addr) ∧
      peer.isAllowedIp addr = .ok true := by
  have hnone (hr : r.toInterface = none) (hundelivered : Undelivered outputs) :
      Output.nic packet k ∈ outputs ↔ k = key ∧ ∃ addr, r.toInterface = some (packet, addr) ∧
        peer.isAllowedIp addr = .ok true := by
    refine ⟨fun hmem => absurd hmem (hundelivered packet k), ?_⟩
    rintro ⟨-, addr, hsome, -⟩
    cases hr.symm.trans hsome
  cases r with
  | done | err =>
    cases h
    exact hnone rfl .nil
  | writeToNetwork sent =>
    obtain ⟨⟨pending, d₁⟩, -, h⟩ := bind_ok_iff.mp h
    obtain ⟨⟨flushed, d₂⟩, hflush, h⟩ := bind_ok_iff.mp h
    cases h
    exact hnone rfl ((Undelivered.pending pending).append (flushQueuedPackets_undelivered hflush))
  | writeToInterfaceV4 inner addr | writeToInterfaceV6 inner addr =>
    obtain ⟨allowed, hallowed, h⟩ := bind_ok_iff.mp h
    cases h
    cases allowed with
    | false =>
      refine ⟨fun hmem => absurd hmem List.not_mem_nil, ?_⟩
      rintro ⟨-, addr', hsome, htrue⟩
      cases hsome
      cases hallowed.symm.trans htrue
    | true =>
      rw [if_pos rfl, List.mem_singleton]
      constructor
      · intro heq
        cases heq
        exact ⟨rfl, _, rfl, hallowed⟩
      · rintro ⟨rfl, addr', hsome, -⟩
        cases hsome
        rfl

def AtMostOne (outputs : List Output) : Prop :=
  Undelivered outputs ∨ ∃ packet key, outputs = [.nic packet key]

theorem AtMostOne.eq_of_mem (h : AtMostOne outputs) (hmem : Output.nic packet key ∈ outputs) :
    outputs = [.nic packet key] := by
  rcases h with h | ⟨packet', key', rfl⟩
  · exact absurd hmem (h packet key)
  · rw [List.mem_singleton.mp hmem]

theorem finishUdpPacket_atMostOne {peer : Peer K} {r : TunnResult}
    (h : d.finishUdpPacket key peer r = .ok (outputs, d')) : AtMostOne outputs := by
  cases r with
  | done | err =>
    cases h
    exact .inl .nil
  | writeToNetwork sent =>
    obtain ⟨⟨pending, d₁⟩, -, h⟩ := bind_ok_iff.mp h
    obtain ⟨⟨flushed, d₂⟩, hflush, h⟩ := bind_ok_iff.mp h
    cases h
    exact .inl ((Undelivered.pending pending).append (flushQueuedPackets_undelivered hflush))
  | writeToInterfaceV4 inner addr | writeToInterfaceV6 inner addr =>
    obtain ⟨allowed, -, h⟩ := bind_ok_iff.mp h
    cases h
    cases allowed with
    | false => exact .inl .nil
    | true => exact .inr ⟨inner, key, rfl⟩

/-! ### Datagrams -/

inductive Handling (d : Device K N BYTES) (datagram : Bytes) (src : SocketAddr) :
    List Output → Device K N BYTES → Prop
  | dropped {answer : Except TunnResult Packet} {rateLimiter : RateLimiter} {w : World K N BYTES}
      (verified : d.rateLimiter.verifyPacket (some src.ip) datagram maxPacketSize d.world =
        (answer, rateLimiter, w))
      (unattributed : ∀ packet key, answer = .ok packet → d.peerKeyOf packet ≠ .ok (some key)) :
      Handling d datagram src [] { d with rateLimiter := rateLimiter, world := w }
  | challenged {cookie : Bytes} {rateLimiter : RateLimiter} {w : World K N BYTES}
      (verified : d.rateLimiter.verifyPacket (some src.ip) datagram maxPacketSize d.world =
        (.error (.writeToNetwork cookie), rateLimiter, w)) :
      Handling d datagram src [.udp cookie src] { d with rateLimiter := rateLimiter, world := w }
  | attributed {packet : Packet} {key : PublicKey} {rateLimiter : RateLimiter}
      {w : World K N BYTES} {dropped : ℕ} {d₁ d' : Device K N BYTES} {outputs : List Output}
      (verified : d.rateLimiter.verifyPacket (some src.ip) datagram maxPacketSize d.world =
        (.ok packet, rateLimiter, w))
      (attribution : d.peerKeyOf packet = .ok (some key))
      (expired : dropExpiredPacketQueues { d with rateLimiter := rateLimiter, world := w } =
        .ok (dropped, d₁))
      (handled : d₁.handleAttributedPacket key src packet = .ok (outputs, d')) :
      Handling d datagram src outputs d'

theorem handleUdpPacket_handling {datagram : Bytes} {src : SocketAddr}
    (h : d.handleUdpPacket datagram src = .ok (outputs, d')) : Handling d datagram src outputs d' := by
  rw [handleUdpPacket] at h
  cases hverified : d.rateLimiter.verifyPacket (some src.ip) datagram maxPacketSize d.world with
  | mk answer rest =>
    obtain ⟨rateLimiter, w⟩ := rest
    rw [hverified] at h
    dsimp only at h
    split at h
    · cases h
      exact .challenged hverified
    · cases h
      exact .dropped hverified fun packet key hok => by cases hok
    · rename_i packet
      obtain ⟨attribution, hkey, h⟩ := bind_ok_iff.mp h
      cases attribution with
      | none =>
        cases h
        refine .dropped hverified fun packet' key hok hsome => ?_
        cases hok
        cases hkey.symm.trans hsome
      | some key =>
        obtain ⟨⟨dropped, d₁⟩, hdrop, h⟩ := bind_ok_iff.mp h
        exact .attributed hverified hkey hdrop h

theorem dropExpiredPacketQueues_peer {dropped : ℕ} {peer : Peer K}
    (h : d.dropExpiredPacketQueues = .ok (dropped, d')) (hpeer : d.peers.peerByKey key = some peer) :
    ∃ q, d'.peers.peerByKey key =
      some { peer with tunnel := { peer.tunnel with packetQueue := q } } := by
  have hmoves : Moves False d d' := dropExpiredPacketQueues_moves h
  have hsame : PeerState.SameBy (fun _ => ()) d.peers d'.peers := hmoves.sameBy fun _ _ => rfl
  obtain ⟨peer', hpeer', -⟩ := hsame.peer hpeer
  obtain ⟨old, q, hold, rfl⟩ := dropExpiredPacketQueues_queuesOnly h key peer' hpeer'
  cases hpeer.symm.trans hold
  exact ⟨q, hpeer'⟩

theorem Tables.isAllowedIp_iff (h : d.Tables) {peer : Peer K}
    (hpeer : d.peers.peerByKey key = some peer) (addr : IpAddr) :
    peer.isAllowedIp addr = .ok true ↔ d.peers.peersByIp.find addr = .ok (some key) := by
  obtain ⟨route, hroute, hkey⟩ := (h.routed.consistent h.indexed).find addr
  rw [hroute, Except.ok.injEq, hkey]
  constructor
  · exact fun hallowed => ⟨peer, hpeer, hallowed⟩
  · rintro ⟨peer', hpeer', hallowed⟩
    cases hpeer.symm.trans hpeer'
    exact hallowed

/-- The datagram is a data packet for a session of the peer and opens under it, and the inner packet
comes from an address that the device routes to the peer. -/
def Delivers (d : Device K N BYTES) (datagram packet : Bytes) (key : PublicKey) : Prop :=
  ∃ p peer addr, parseIncomingPacket datagram = .ok (.data p) ∧
    d.peers.peerKeyByIndex p.receiverIdx = some key ∧ d.peers.peerByKey key = some peer ∧
    peer.tunnel.Unwraps p packet addr ∧ d.peers.peersByIp.find addr = .ok (some key)

theorem handleAttributedPacket_delivers_iff {src : SocketAddr} {p : Packet} {peer : Peer K}
    (hpeer : d.peers.peerByKey key = some peer)
    (h : d.handleAttributedPacket key src p = .ok (outputs, d')) {k : PublicKey} :
    Output.nic packet k ∈ outputs ↔ k = key ∧ ∃ data addr, p = .data data ∧
      peer.tunnel.Unwraps data packet addr ∧ peer.isAllowedIp addr = .ok true := by
  rw [handleAttributedPacket, hpeer] at h
  dsimp only at h
  split at h
  · have hundelivered : Undelivered outputs := by
      obtain ⟨⟨r, t⟩, -, h⟩ := bind_ok_iff.mp h
      cases r with
      | error e =>
        cases h
        exact .nil
      | ok relayPlaintext => exact forwardEnvelope_undelivered h
    refine ⟨fun hmem => absurd hmem (hundelivered packet k), ?_⟩
    rintro ⟨-, data, addr, hp, -⟩
    cases hp
  · obtain ⟨⟨r, t, w⟩, hcall, h⟩ := bind_ok_iff.mp h
    dsimp only at h
    rw [finishUdpPacket_delivers_iff h]
    refine and_congr_right fun _ => ?_
    constructor
    · rintro ⟨addr, hr, hallowed⟩
      obtain ⟨data, rfl, hunwraps⟩ := Tunn.handleVerifiedPacket_toInterface hcall hr
      exact ⟨data, addr, rfl, hunwraps, hallowed⟩
    · rintro ⟨data, addr, rfl, hunwraps, hallowed⟩
      exact ⟨addr, Tunn.handleVerifiedPacket_of_unwraps hunwraps hcall, hallowed⟩

theorem handleAttributedPacket_atMostOne {src : SocketAddr} {p : Packet}
    (h : d.handleAttributedPacket key src p = .ok (outputs, d')) : AtMostOne outputs := by
  rw [handleAttributedPacket] at h
  split at h
  · cases h
    exact .inl .nil
  split at h
  · obtain ⟨⟨r, t⟩, -, h⟩ := bind_ok_iff.mp h
    cases r with
    | error e =>
      cases h
      exact .inl .nil
    | ok relayPlaintext => exact .inl (forwardEnvelope_undelivered h)
  · obtain ⟨⟨r, t, w⟩, -, h⟩ := bind_ok_iff.mp h
    exact finishUdpPacket_atMostOne h

theorem handleUdpPacket_delivers_iff {datagram : Bytes} {src : SocketAddr} (hd : d.Tables)
    (h : d.handleUdpPacket datagram src = .ok (outputs, d')) :
    Output.nic packet key ∈ outputs ↔ d.Delivers datagram packet key := by
  -- A data packet passes the rate limiter, and its index alone says whose it is.
  have hpasses (p : Data) (hparse : parseIncomingPacket datagram = .ok (.data p)) :
      d.rateLimiter.verifyPacket (some src.ip) datagram maxPacketSize d.world =
        (.ok (.data p), d.rateLimiter, d.world) := RateLimiter.verifyPacket_unlimited hparse rfl
  cases handleUdpPacket_handling h with
  | dropped verified unattributed =>
    refine ⟨fun hmem => absurd hmem List.not_mem_nil, ?_⟩
    rintro ⟨p, peer, addr, hparse, hkey, -⟩
    cases verified.symm.trans (hpasses p hparse)
    exact absurd (congrArg Except.ok hkey) (unattributed (.data p) key rfl)
  | challenged verified =>
    refine ⟨fun hmem => absurd hmem (Undelivered.udp _ _ packet key), ?_⟩
    rintro ⟨p, peer, addr, hparse, -⟩
    cases verified.symm.trans (hpasses p hparse)
  | @attributed p k _ _ _ d₁ _ _ verified attribution expired handled =>
    have parsed := RateLimiter.verifyPacket_ok (congrArg Prod.fst verified)
    constructor
    · intro hmem
      cases hpeer₁ : d₁.peers.peerByKey k with
      | none =>
        rw [handleAttributedPacket, hpeer₁] at handled
        cases handled
        exact absurd hmem List.not_mem_nil
      | some peer₁ =>
        obtain ⟨peer, q, hpeer, rfl⟩ := dropExpiredPacketQueues_queuesOnly expired k peer₁ hpeer₁
        obtain ⟨rfl, data, addr, rfl, hunwraps, hallowed⟩ :=
          (handleAttributedPacket_delivers_iff hpeer₁ handled).mp hmem
        exact ⟨data, peer, addr, parsed, Except.ok.inj attribution, hpeer, hunwraps,
          (hd.isAllowedIp_iff hpeer addr).mp hallowed⟩
    · rintro ⟨data, peer, addr, hparse, hkey, hpeer, hunwraps, hroute⟩
      cases parsed.symm.trans hparse
      cases (Except.ok.inj attribution).symm.trans hkey
      obtain ⟨q, hpeer₁⟩ := dropExpiredPacketQueues_peer expired hpeer
      rw [handleAttributedPacket_delivers_iff hpeer₁ handled]
      exact ⟨rfl, data, addr, rfl, hunwraps, (hd.isAllowedIp_iff hpeer addr).mpr hroute⟩

theorem step_atMostOne {e : Event} (h : d.step e = .ok (outputs, d')) : AtMostOne outputs := by
  cases e with
  | tunPacket src fits => exact .inl (handleTunPacket_undelivered h)
  | udpPacket datagram fits src =>
    cases handleUdpPacket_handling h with
    | dropped => exact .inl .nil
    | challenged => exact .inl (.udp _ _)
    | attributed _ _ _ handled => exact handleAttributedPacket_atMostOne handled
  | tick order => exact .inl (tick_undelivered h)
  | command c =>
    obtain ⟨⟨completion, d₁⟩, -, h⟩ := bind_ok_iff.mp h
    cases h
    refine .inl fun packet key hmem => ?_
    cases List.mem_singleton.mp hmem
  | reorder order =>
    cases h
    exact .inl .nil

/-- What the interface gets from a device, in any state that a run reaches: a packet for each
datagram that delivers one, and nothing else. -/
theorem step_delivers_iff (hd : d.Reachable) {e : Event} (h : d.step e = .ok (outputs, d'))
    (packet : Bytes) (key : PublicKey) :
    (Output.nic packet key ∈ outputs ↔ ∃ datagram fits src, e = .udpPacket datagram fits src ∧
      d.Delivers datagram packet key) ∧
    (Output.nic packet key ∈ outputs → outputs = [.nic packet key]) := by
  refine ⟨?_, (step_atMostOne h).eq_of_mem⟩
  have hnone (hundelivered : Undelivered outputs) (hother : ∀ datagram fits src,
      e ≠ .udpPacket datagram fits src) : Output.nic packet key ∈ outputs ↔
        ∃ datagram fits src, e = .udpPacket datagram fits src ∧ d.Delivers datagram packet key := by
    refine ⟨fun hmem => absurd hmem (hundelivered packet key), ?_⟩
    rintro ⟨datagram, fits, src, he, -⟩
    exact absurd he (hother datagram fits src)
  cases e with
  | tunPacket src fits =>
    exact hnone (handleTunPacket_undelivered h) fun _ _ _ he => by cases he
  | udpPacket datagram fits src =>
    rw [handleUdpPacket_delivers_iff hd.tables h]
    constructor
    · exact fun hdelivers => ⟨datagram, fits, src, rfl, hdelivers⟩
    · rintro ⟨datagram', fits', src', he, hdelivers⟩
      cases he
      exact hdelivers
  | tick order => exact hnone (tick_undelivered h) fun _ _ _ he => by cases he
  | command c =>
    obtain ⟨⟨completion, d₁⟩, -, h⟩ := bind_ok_iff.mp h
    cases h
    refine hnone (fun packet key hmem => ?_) fun _ _ _ he => by cases he
    cases List.mem_singleton.mp hmem
  | reorder order =>
    cases h
    exact hnone .nil fun _ _ _ he => by cases he

end Device

namespace Sample

open Device

theorem step_delivers_iff_handshake :
    ∃ (d d' : Device Crypto.sample 8 8192) (outputs : List Output),
      d.Reachable ∧ d.step (received (sealedFor 1 [peerConfig 5 lan none] MessageType.data
        innerPacket) (addr 5)) = .ok (outputs, d') ∧ outputs = [.nic innerPacket (key 5)] ∧
      ∃ datagram, d.Delivers datagram innerPacket (key 5) := by
  have hcheck : runAnd 1 [peerConfig 5 lan none] [received (initiationOf 5 1) (addr 5)]
      (fun (_, d) => okAnd (fun (outputs, _) => outputs.any fun output =>
          match output with
          | .nic packet peer => packet = innerPacket && peer = key 5
          | _ => false)
        (d.step (received (sealedFor 1 [peerConfig 5 lan none] MessageType.data innerPacket)
          (addr 5)))) = true := by
    decide +kernel
  obtain ⟨start, greeting, d, hnew, hrun, hstep⟩ := exists_of_runAnd hcheck
  obtain ⟨⟨outputs, d'⟩, hstep, hdelivered⟩ := exists_of_okAnd hstep
  have hd : d.Reachable := ⟨.alloc, _, _, _, _, _, start, _, greeting, hnew, hrun⟩
  have hmem : Output.nic innerPacket (key 5) ∈ outputs := by
    obtain ⟨output, hmem, hpacket⟩ := List.any_eq_true.mp hdelivered
    cases output with
    | nic packet peer =>
      simp only [Bool.and_eq_true, decide_eq_true_eq] at hpacket
      obtain ⟨rfl, rfl⟩ := hpacket
      exact hmem
    | udp | completion => cases hpacket
  obtain ⟨hdelivers, halone⟩ := step_delivers_iff hd hstep innerPacket (key 5)
  obtain ⟨datagram, -, -, -, hdelivers⟩ := hdelivers.mp hmem
  exact ⟨d, d', outputs, hd, hstep, halone hmem, datagram, hdelivers⟩

end Sample

end Tendrilix
