import Tendrilix.Device.Delivery
import Tendrilix.Noise.Rejection

/-!
# What forged datagrams do

A datagram that no tunnel opens leaves the device as it was. The most it gets back is a cookie reply,
which is smaller than the handshake message it answers.
-/

namespace Tendrilix

open Noise

variable {K : Crypto} {N BYTES : ℕ}

/-! ### Cookie replies -/

namespace Noise.RateLimiter

open Bytes

variable {l l' : RateLimiter} {srcAddr : Option IpAddr} {datagram cookie : Bytes} {dstLen : ℕ}
  {w w' : World K N BYTES}

structure Challenges (K : Crypto) (mac1Key datagram cookie : Bytes) : Prop where
  handshake : ∃ packet senderIdx, parseIncomingPacket datagram = .ok packet ∧
    handshakeSender packet = some senderIdx
  mac : b2sKeyedMac16 K mac1Key (datagram.take (datagram.length - 32)) =
    slice datagram (datagram.length - 32) (datagram.length - 16)
  length : cookie.length = cookieReplySz
  smaller : cookie.length < datagram.length

theorem length_of_handshakeSender {packet : Packet} {senderIdx : ℕ}
    (hparse : parseIncomingPacket datagram = .ok packet)
    (hsender : handshakeSender packet = some senderIdx) : handshakeRespSz ≤ datagram.length := by
  rw [parseIncomingPacket] at hparse
  split at hparse
  · cases hparse
  dsimp only at hparse
  split at hparse
  · rename_i hinit
    rw [hinit.2]
    decide
  split at hparse
  · rename_i hresp
    exact hresp.2.ge
  split at hparse
  · cases hparse
    cases hsender
  split at hparse
  · cases hparse
    cases hsender
  split at hparse
  · cases hparse
    cases hsender
  · cases hparse

theorem length_formatCookieReply {idx : ℕ} {mac1 packet : Bytes} (hcookie : cookie.length = 16)
    (h : l.formatCookieReply K idx cookie mac1 dstLen = (.ok packet, l')) :
    packet.length = cookieReplySz := by
  rw [formatCookieReply] at h
  split at h
  · cases h
  · cases h
    simp only [List.length_append, length_toLe, K.length_xencrypt, K.length_xtag, hcookie, b2sMac24,
      K.length_mac24]
    rfl

theorem verifyPacket_challenges
    (h : l.verifyPacket srcAddr datagram dstLen w = (.error (.writeToNetwork cookie), l', w')) :
    Challenges K l.mac1Key datagram cookie := by
  rw [verifyPacket] at h
  split at h
  · cases h
  rename_i packet hparse
  split at h
  · cases h
  rename_i senderIdx hsender
  dsimp only at h
  split at h
  · cases h
  rename_i hmac
  split at h
  · cases h
  split at h
  · cases h
  rename_i addr
  split at h
  · cases h
  split at h
  · cases h
  rename_i reply l₁ hreply
  cases h
  have hlength := length_formatCookieReply (K.length_mac16 _ _) hreply
  have hdatagram := length_of_handshakeSender hparse hsender
  exact
    { handshake := ⟨packet, senderIdx, hparse, hsender⟩
      mac := not_not.mp hmac
      length := hlength
      smaller := hlength.trans_lt (lt_of_lt_of_le (by decide) hdatagram) }

theorem verifyPacket_limiter (l : RateLimiter) (srcAddr : Option IpAddr) (datagram : Bytes)
    (dstLen : ℕ) (w : World K N BYTES) :
    ∃ nonceCtr count, (l.verifyPacket srcAddr datagram dstLen w).2.1 =
      { l with nonceCtr := nonceCtr, count := count } := by
  have hformat (l : RateLimiter) (idx : ℕ) (cookie mac1 : Bytes) :
      ∃ nonceCtr, (l.formatCookieReply K idx cookie mac1 dstLen).2 =
        { l with nonceCtr := nonceCtr } := by
    rw [formatCookieReply]
    split
    · exact ⟨l.nonceCtr, rfl⟩
    · exact ⟨_, rfl⟩
  have hverdict := l.verifyPacket_verdict srcAddr datagram dstLen w
  generalize l.verifyPacket srcAddr datagram dstLen w = r at hverdict
  cases hverdict with
  | malformed | unlimited | invalidMac => exact ⟨l.nonceCtr, l.count, rfl⟩
  | idle | unaddressed | authenticated => exact ⟨l.nonceCtr, (l.count + 1) % 2 ^ 64, rfl⟩
  | refused reply | answered _ _ _ _ reply =>
    obtain ⟨nonceCtr, hl⟩ := hformat l.isUnderLoad.2 _ _ _
    rw [reply] at hl
    exact ⟨nonceCtr, (l.count + 1) % 2 ^ 64, hl⟩

end Noise.RateLimiter

/-! ### What a tunnel heeds -/

namespace Noise.Tunn

variable {t t' : Tunn K} {w w' : World K N BYTES} {packet : Packet} {r : TunnResult}

def Opens (t : Tunn K) (p : Data) : Prop :=
  ∃ s s' plaintext, t.sessions (slotOf p.receiverIdx) = some s ∧
    s.receivePacketData K p maxPacketSize = .ok (.ok plaintext, s')

end Noise.Tunn

/-! ### A device that nothing disturbs -/

def Peer.withoutQueue (peer : Peer K) : Peer K :=
  { peer with tunnel := { peer.tunnel with packetQueue := {} } }

namespace Device

variable {d d' d'' : Device K N BYTES} {outputs : List Output} {key : PublicKey}

def restore (d d' : Device K N BYTES) : Device K N BYTES :=
  { d' with
    rateLimiter :=
      { d'.rateLimiter with nonceCtr := d.rateLimiter.nonceCtr, count := d.rateLimiter.count }
    peers := { d'.peers with peers := d.peers.peers }
    world := { d'.world with pool := d.world.pool, reads := d.world.reads } }

structure Undisturbed (d d' : Device K N BYTES) : Prop where
  peers : PeerState.SameBy Peer.withoutQueue d.peers d'.peers
  queues : ∀ Q, d.Waits Q → d'.Waits Q
  rest : restore d d' = d

theorem Undisturbed.refl (d : Device K N BYTES) : Undisturbed d d := ⟨fun _ => rfl, fun _ => id, rfl⟩

theorem Undisturbed.trans (h : Undisturbed d d') (h' : Undisturbed d' d'') : Undisturbed d d'' where
  peers := fun key => (h'.peers key).trans (h.peers key)
  queues := fun Q hwaits => h'.queues Q (h.queues Q hwaits)
  rest :=
    calc restore d d'' = restore d (restore d' d'') := rfl
      _ = restore d d' := by rw [h'.rest]
      _ = d := h.rest

theorem Undisturbed.congr {β : Type} (h : Undisturbed d d') (f : Device K N BYTES → β)
    (hf : f (restore d d') = f d') : f d' = f d := hf.symm.trans (congrArg f h.rest)

theorem Undisturbed.verifyPacket (d : Device K N BYTES) (src : Option IpAddr) (datagram : Bytes)
    {answer : Except TunnResult Packet} {rateLimiter : RateLimiter} {w : World K N BYTES}
    (h : d.rateLimiter.verifyPacket src datagram maxPacketSize d.world = (answer, rateLimiter, w)) :
    Undisturbed d { d with rateLimiter := rateLimiter, world := w } := by
  obtain ⟨nonceCtr, count, hlimiter⟩ :=
    d.rateLimiter.verifyPacket_limiter src datagram maxPacketSize d.world
  have hworld := d.rateLimiter.verifyPacket_world src datagram maxPacketSize d.world
  rw [h] at hlimiter hworld
  obtain rfl : rateLimiter = _ := hlimiter
  rcases hworld with rfl | rfl
  · exact ⟨fun _ => rfl, fun _ hwaits => hwaits.congr rfl rfl, rfl⟩
  · exact ⟨fun _ => rfl, fun _ hwaits => hwaits.congr rfl rfl, rfl⟩

theorem Undisturbed.setTunnel {peer : Peer K} {q : PacketQueue} {pool : PacketPool N BYTES}
    (hpeer : d.peers.peerByKey key = some peer)
    (hqueue : Tunn.Queues (fun _ _ => False) peer.tunnel d.world
      { peer.tunnel with packetQueue := q } { d.world with pool := pool }) :
    Undisturbed d (d.setTunnel key peer { peer.tunnel with packetQueue := q }
      { d.world with pool := pool }) where
  peers := .setPeer _ hpeer rfl
  queues := fun _ hwaits => hwaits.setTunnel hpeer hqueue fun _ h => h.elim
  rest := rfl

theorem Undisturbed.peerKeyOf (h : Undisturbed d d') (packet : Packet) :
    d'.peerKeyOf packet = d.peerKeyOf packet := by
  have hprivate : d'.privateKey = d.privateKey := h.congr Device.privateKey rfl
  have hindexes : d'.peers.peersByIdx = d.peers.peersByIdx :=
    h.congr (fun d => d.peers.peersByIdx) rfl
  have hconfigured (key : PublicKey) :
      (d'.peers.peerByKey key).isSome = (d.peers.peerByKey key).isSome := by
    have hkey := congrArg Option.isSome (h.peers key)
    rwa [Option.isSome_map, Option.isSome_map] at hkey
  cases packet with
  | handshakeInit p =>
    unfold Device.peerKeyOf
    simp only [hprivate, hconfigured]
  | handshakeResponse p | cookieReply p | data p | relayData p =>
    unfold Device.peerKeyOf PeerState.peerKeyByIndex
    simp only [hindexes]

end Device

namespace Sample

open Device

end Sample

end Tendrilix
