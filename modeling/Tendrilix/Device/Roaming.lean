import Tendrilix.Device.PeerTable
import Tendrilix.Noise.TunnSpec

/-!
# Endpoints move with packets of the peer

The endpoint of a peer is replaced by the source of a datagram that its tunnel accepts. For a
handshake message or a data packet this takes a key that only the peer has. A cookie reply is
accepted too, and its key is public.
-/

namespace Tendrilix

open Noise

variable {K : Crypto} {N BYTES : ℕ}

/-! ### What a tunnel accepts -/

namespace Noise

def Handshake.AcceptsCookie (h : Handshake K) (p : CookieReply) : Prop :=
  ∃ mac1 cookie, h.cookies.lastMac1 = some mac1 ∧ p.receiverIdx = h.cookies.index ∧
    p.encryptedCookie.length = 32 ∧
    K.xdecrypt (b2sHash K labelCookie h.params.peerStaticPublic) p.nonce mac1
      (p.encryptedCookie.take 16) (p.encryptedCookie.drop 16) = some cookie

theorem Handshake.receiveCookieReply_ok_iff {h : Handshake K} {p : CookieReply} :
    (∃ h', h.receiveCookieReply p = .ok (.ok (), h')) ↔ h.AcceptsCookie p := by
  rw [AcceptsCookie]
  unfold receiveCookieReply
  cases hlast : h.cookies.lastMac1 with
  | none => simp
  | some mac1 =>
    dsimp only
    by_cases hidx : p.receiverIdx = h.cookies.index
    · rw [if_neg (not_not.mpr hidx)]
      by_cases hlen : p.encryptedCookie.length = 32
      · have htake : (p.encryptedCookie.take 16).length = 16 := by
          rw [List.length_take, hlen]
          rfl
        simp only [hlen, Nat.reduceLT, if_false, Nat.reduceSub, htake, ne_eq, not_true_eq_false]
        cases hopen : K.xdecrypt (b2sHash K labelCookie h.params.peerStaticPublic) p.nonce mac1
          (p.encryptedCookie.take 16) (p.encryptedCookie.drop 16) with
        | none => simp [hopen]
        | some cookie => simp [hopen, hidx]
      · constructor
        · rintro ⟨h', hcall⟩
          split at hcall
          · cases hcall
          split at hcall
          · cases hcall
          · rename_i hshort hct
            rw [not_not, List.length_take] at hct
            omega
        · rintro ⟨_, _, -, -, hlen', -⟩
          exact absurd hlen' hlen
    · rw [if_pos hidx]
      constructor
      · rintro ⟨h', hcall⟩
        cases hcall
      · rintro ⟨_, _, -, hidx', -⟩
        exact absurd hidx' hidx

namespace Tunn

def Accepted (r : TunnResult) : Prop := Device.isAccepted r = true

/-- The packet opens under a key that is derived from the static secrets of the handshake, from
those of a pending handshake or from a session, and it is neither old nor malformed. -/
def Authenticates (t : Tunn K) : Packet → Prop
  | .handshakeInit p => ∃ timestamp hash chainingKey,
      t.handshake.params.openInitiation p = .ok (.ok (timestamp, hash, chainingKey)) ∧
      timestamp.after t.handshake.lastHandshakeTimestamp = true
  | .handshakeResponse p => ∃ state keys, t.handshake.expected p.receiverIdx = some state ∧
      t.handshake.params.openResponse state p = .ok (.ok keys)
  | .data p => ∃ s s' plaintext, t.sessions (slotOf p.receiverIdx) = some s ∧
      p.Opens K s.receivingKey ∧
      s.receivePacketData K p maxPacketSize = .ok (.ok plaintext, s') ∧
      Accepted (t.validateDecapsulatedPacket plaintext).1
  | .cookieReply _ => False
  | .relayData _ => False

variable {t t' : Tunn K} {w w' : World K N BYTES} {r : TunnResult}

theorem validateDecapsulatedPacket_fst (t t' : Tunn K) (packet : Bytes) :
    (t.validateDecapsulatedPacket packet).1 = (t'.validateDecapsulatedPacket packet).1 := by
  rw [validateDecapsulatedPacket, validateDecapsulatedPacket]
  repeat' split
  all_goals rfl

theorem handleVerifiedPacket_accepted {packet : Packet}
    (h : t.handleVerifiedPacket packet maxPacketSize w = .ok (r, t', w')) (hr : Accepted r) :
    t.Authenticates packet ∨ ∃ p, packet = .cookieReply p ∧ t.handshake.AcceptsCookie p := by
  cases handleVerifiedPacket_cases h with
  | refuse | misdirected | refuseCookie | reject | foreign => cases hr
  | respond hreceive =>
    obtain ⟨timestamp, hash, chainingKey, -, -, hopen, hafter, -⟩ :=
      Handshake.receiveHandshakeInitialization_ok hreceive
    exact .inl ⟨timestamp, hash, chainingKey, hopen, hafter⟩
  | conclude hreceive hseal =>
    obtain ⟨state, keys, hexpected, hopen, -⟩ := Handshake.receiveHandshakeResponse_ok hreceive
    exact .inl ⟨state, keys, hexpected, hopen⟩
  | cookie hreceive => exact .inr ⟨_, rfl, Handshake.receiveCookieReply_ok_iff.mp ⟨_, hreceive⟩⟩
  | @receive p plaintext t₂ _ _ hdecrypt hvalid =>
    obtain ⟨s, s', hs, hreceive, -⟩ := decryptRawData_ok hdecrypt
    obtain ⟨-, -, hopens, -⟩ := Session.receivePacketData_ok hreceive
    refine .inl ⟨s, s', plaintext, hs, hopens, hreceive, ?_⟩
    rw [validateDecapsulatedPacket_fst t t₂, hvalid]
    exact hr

theorem handleVerifiedPacket_cookieReply {p : CookieReply} (hp : t.handshake.AcceptsCookie p) :
    ∃ t', t.handleVerifiedPacket (.cookieReply p) maxPacketSize w = .ok (.done, t', w) := by
  obtain ⟨h', hreceive⟩ := Handshake.receiveCookieReply_ok_iff.mpr hp
  simp only [handleVerifiedPacket, handleCookieReply, hreceive, ok_bind, pure_eq_ok]
  exact ⟨_, rfl⟩

theorem Authenticates.of_queue {packet : Packet} {q : PacketQueue}
    (h : Authenticates { t with packetQueue := q } packet) : t.Authenticates packet := by
  cases packet with
  | data p =>
    obtain ⟨s, s', plaintext, hs, hopens, hreceive, haccepted⟩ := h
    refine ⟨s, s', plaintext, hs, hopens, hreceive, ?_⟩
    rw [validateDecapsulatedPacket_fst t { t with packetQueue := q }]
    exact haccepted
  | _ => exact h

end Tunn

end Noise

/-! ### The endpoints of a device -/

namespace Device

variable {d d' : Device K N BYTES} {outputs : List Output}

def endpointOf (d : Device K N BYTES) (key : PublicKey) : Option (Option SocketAddr) :=
  (d.peers.peerByKey key).map (·.endpoint)

theorem Moves.sameBy {β : Type} {f : Peer K → β}
    (hf : ∀ peer t, f { peer with tunnel := t } = f peer) (h : Moves False d d') :
    PeerState.SameBy f d.peers d'.peers := by
  intro key
  induction h with
  | refl => rfl
  | tail _ hlast ih =>
    rw [← ih]
    cases hlast with
    | read | count => rfl
    | @tunnel k peer t w configured call =>
      exact PeerState.SameBy.setPeer { peer with tunnel := t } configured (hf peer t) key
    | endpoint configured addr allowed => exact allowed.elim

theorem Moves.endpointOf (h : Moves False d d') (key : PublicKey) :
    d'.endpointOf key = d.endpointOf key := h.sameBy (fun _ _ => rfl) key

/-- Nothing of a peer has changed but its pending queue. -/
def QueuesOnly (d d' : Device K N BYTES) : Prop :=
  ∀ key peer', d'.peers.peerByKey key = some peer' → ∃ peer q,
    d.peers.peerByKey key = some peer ∧
      peer' = { peer with tunnel := { peer.tunnel with packetQueue := q } }

theorem dropExpiredLoop_queuesOnly {now dropped : ℕ} {keys : List PublicKey}
    (h : dropExpiredLoop now keys d = .ok (dropped, d')) : QueuesOnly d d' := by
  induction keys generalizing d dropped with
  | nil =>
    cases h
    exact fun key peer' hpeer' => ⟨peer', peer'.tunnel.packetQueue, hpeer', rfl⟩
  | cons k keys ih =>
    rw [dropExpiredLoop] at h
    cases hk : d.peers.peerByKey k with
    | none =>
      rw [hk] at h
      exact ih h
    | some first =>
      rw [hk] at h
      obtain ⟨⟨n, t, w⟩, hcall, h⟩ := bind_ok_iff.mp h
      obtain ⟨⟨others, d₁⟩, hrest, h⟩ := bind_ok_iff.mp h
      cases h
      obtain ⟨⟨n, q, pool⟩, -, hcall⟩ := bind_ok_iff.mp hcall
      cases hcall
      intro key peer' hpeer'
      obtain ⟨peer, q', hpeer, rfl⟩ := ih hrest key peer' hpeer'
      have hmem := Bounded.mem_of_lookup hk
      rcases (Bounded.lookup_replace_eq_some_iff hmem).mp hpeer with ⟨rfl, rfl⟩ | ⟨-, hpeer⟩
      · exact ⟨first, q', hk, rfl⟩
      · exact ⟨peer, q', hpeer, rfl⟩

theorem dropExpiredPacketQueues_queuesOnly {dropped : ℕ}
    (h : d.dropExpiredPacketQueues = .ok (dropped, d')) : QueuesOnly d d' :=
  dropExpiredLoop_queuesOnly (d := { d with world := d.world.now.2 }) h

/-- An endpoint that changes is that of the peer the datagram is attributed to, and the datagram is
authentic. -/
def RoamsAuthentic (d d' : Device K N BYTES) (datagram : Bytes) : Prop :=
  ∀ key, d'.endpointOf key ≠ d.endpointOf key → ∃ packet peer,
    parseIncomingPacket datagram = .ok packet ∧ d.peerKeyOf packet = .ok (some key) ∧
    d.peers.peerByKey key = some peer ∧ peer.tunnel.Authenticates packet

/-- A cookie reply from another address that the peer it is attributed to accepts. -/
def CookieRoams (d : Device K N BYTES) (datagram : Bytes) (src : SocketAddr) : Prop :=
  ∃ p key peer, parseIncomingPacket datagram = .ok (.cookieReply p) ∧
    d.peers.peerKeyByIndex p.receiverIdx = some key ∧ d.peers.peerByKey key = some peer ∧
    peer.tunnel.handshake.AcceptsCookie p ∧ peer.endpoint ≠ some src

theorem handleUdpPacket_cases {datagram : Bytes} {src : SocketAddr}
    (h : d.handleUdpPacket datagram src = .ok (outputs, d')) :
    (Moves False d d' ∧ ∀ p, parseIncomingPacket datagram = .ok (.cookieReply p) →
      d.peers.peerKeyByIndex p.receiverIdx = none) ∨
    ∃ packet key d₁, parseIncomingPacket datagram = .ok packet ∧
      d.peerKeyOf packet = .ok (some key) ∧ Moves False d d₁ ∧ QueuesOnly d d₁ ∧
      d₁.handleAttributedPacket key src packet = .ok (outputs, d') := by
  have hverify : Moves False d _ :=
    verifyPacket_moves d (some src.ip) datagram maxPacketSize
  rw [handleUdpPacket] at h
  dsimp only at h
  cases hverified : (d.rateLimiter.verifyPacket (some src.ip) datagram maxPacketSize d.world).1 with
  | error r =>
    have hcookie : ∀ p, parseIncomingPacket datagram = .ok (.cookieReply p) →
        d.peers.peerKeyByIndex p.receiverIdx = none := by
      intro p hparse
      rw [RateLimiter.verifyPacket_unlimited hparse rfl] at hverified
      cases hverified
    rw [hverified] at h
    left
    refine ⟨?_, hcookie⟩
    split at h
    · cases h
      exact hverify
    · cases h
      exact hverify
    · contradiction
  | ok packet =>
    have hparse := RateLimiter.verifyPacket_ok hverified
    rw [hverified] at h
    obtain ⟨peerKey, hkey, h⟩ := bind_ok_iff.mp h
    cases peerKey with
    | none =>
      cases h
      refine .inl ⟨hverify, fun p hcookie => ?_⟩
      cases hparse.symm.trans hcookie
      exact Except.ok.inj hkey
    | some key =>
      obtain ⟨⟨dropped, d₁⟩, hdrop, h⟩ := bind_ok_iff.mp h
      have hmoves := hverify.trans (dropExpiredPacketQueues_moves hdrop)
      have hqueues := dropExpiredPacketQueues_queuesOnly hdrop
      exact .inr ⟨packet, key, d₁, hparse, hkey, hmoves, hqueues, h⟩

theorem handleAttributedPacket_endpointOf {key : PublicKey} {src : SocketAddr} {packet : Packet}
    (h : d.handleAttributedPacket key src packet = .ok (outputs, d')) :
    (∀ k, d'.endpointOf k = d.endpointOf k) ∧
      (∀ peer p, d.peers.peerByKey key = some peer → packet ≠ .cookieReply p) ∨
    ∃ peer r t w, d.peers.peerByKey key = some peer ∧
      peer.tunnel.handleVerifiedPacket packet maxPacketSize d.world = .ok (r, t, w) ∧
      ∀ k, d'.endpointOf k =
        if k = key ∧ isAccepted r = true then some (some src) else d.endpointOf k := by
  rw [handleAttributedPacket] at h
  cases hpeer : d.peers.peerByKey key with
  | none =>
    rw [hpeer] at h
    cases h
    exact .inl ⟨fun k => rfl, fun _ _ hp => by cases hp⟩
  | some peer =>
    rw [hpeer] at h
    dsimp only at h
    split at h
    · left
      obtain ⟨⟨r, t⟩, hcall, h⟩ := bind_ok_iff.mp h
      have hmove : Move False _ _ := .tunnel hpeer (.receiveRelay (w := d.world) hcall)
      refine ⟨?_, fun _ _ _ hp => by cases hp⟩
      cases r with
      | error e =>
        cases h
        exact hmove.moves.endpointOf
      | ok relayPlaintext =>
        have hmoves : Moves False d d' := .head hmove (forwardEnvelope_moves h)
        exact hmoves.endpointOf
    · right
      obtain ⟨⟨r, t, w⟩, hcall, h⟩ := bind_ok_iff.mp h
      have hmove : Move False _ _ := .tunnel hpeer (.receive hcall)
      refine ⟨peer, r, t, w, rfl, hcall, fun k => ?_⟩
      dsimp only at h
      split at h
      · rename_i hroams
        rw [(finishUdpPacket_moves h).endpointOf k]
        by_cases hk : k = key
        · subst hk
          rw [if_pos ⟨rfl, hroams.1⟩, endpointOf]
          have hself : (setEndpoint (d.setTunnel k peer t w) k { peer with tunnel := t }
              src).peers.peerByKey k = some { peer with tunnel := t, endpoint := some src } :=
            Bounded.lookup_replace_self _
              (Bounded.mem_of_lookup (setTunnel_peerByKey hpeer t w))
          rw [hself]
          rfl
        · rw [if_neg fun hboth => hk hboth.1, ← hmove.moves.endpointOf k]
          exact congrArg (Option.map Peer.endpoint) (Bounded.lookup_replace_ne _ hk)
      · rename_i hstays
        rw [(finishUdpPacket_moves h).endpointOf k, hmove.moves.endpointOf k]
        split
        · rename_i hboth
          obtain ⟨rfl, haccepted⟩ := hboth
          have hendpoint : peer.endpoint = some src := by
            by_contra hne
            exact hstays ⟨haccepted, hne⟩
          rw [endpointOf, hpeer, Option.map_some, hendpoint]
        · rfl

/-- Endpoints follow packets that the peer has authenticated, except for one kind of datagram: a
cookie reply that the peer's tunnel accepts. -/
theorem handleUdpPacket_roams_iff (d : Device K N BYTES) (datagram : Bytes) (src : SocketAddr)
    (h : d.handleUdpPacket datagram src = .ok (outputs, d')) :
    RoamsAuthentic d d' datagram ↔ ¬CookieRoams d datagram src := by
  rcases handleUdpPacket_cases h with
    ⟨hmoves, hcookie⟩ | ⟨packet, key, d₁, hparse, hkey, hmoves, hqueues, h⟩
  · refine ⟨fun _ => ?_, fun _ k hk => absurd (hmoves.endpointOf k) hk⟩
    rintro ⟨p, key, peer, hparse, hkey, -⟩
    rw [hcookie p hparse] at hkey
    cases hkey
  · rcases handleAttributedPacket_endpointOf h with
      ⟨hstays, hcookie⟩ | ⟨peer₁, r, t, w, hpeer₁, hcall, hendpoint⟩
    · refine ⟨fun _ => ?_, fun _ k hk => absurd ((hstays k).trans (hmoves.endpointOf k)) hk⟩
      rintro ⟨p, key', peer, hparse', hkey', hpeer, -⟩
      cases hparse.symm.trans hparse'
      cases hkey'.symm.trans (Except.ok.inj hkey)
      have hsome : d₁.endpointOf key = some peer.endpoint := by
        rw [hmoves.endpointOf, endpointOf, hpeer]
        rfl
      obtain ⟨peer₁, hpeer₁, -⟩ := Option.map_eq_some_iff.mp hsome
      exact hcookie peer₁ p hpeer₁ rfl
    · obtain ⟨peer, q, hpeer, rfl⟩ := hqueues key peer₁ hpeer₁
      constructor
      · rintro hroams ⟨p, key', peer', hparse', hkey', hpeer', haccepts, hsrc⟩
        cases hparse.symm.trans hparse'
        cases hkey'.symm.trans (Except.ok.inj hkey)
        cases hpeer.symm.trans hpeer'
        obtain ⟨t', hdone⟩ := Tunn.handleVerifiedPacket_cookieReply (w := d₁.world)
          (t := { peer.tunnel with packetQueue := q }) haccepts
        cases hcall.symm.trans hdone
        have hchanged : d'.endpointOf key ≠ d.endpointOf key := by
          rw [hendpoint, if_pos ⟨rfl, rfl⟩, endpointOf, hpeer]
          exact fun heq => hsrc (Option.some.inj heq).symm
        obtain ⟨packet, peer', hpacket, -, -, hauth⟩ := hroams key hchanged
        cases hparse.symm.trans hpacket
        exact hauth
      · intro hcookie k hk
        rw [hendpoint k] at hk
        split at hk
        · rename_i hboth
          obtain ⟨rfl, haccepted⟩ := hboth
          refine ⟨packet, peer, hparse, hkey, hpeer, ?_⟩
          rcases Tunn.handleVerifiedPacket_accepted hcall haccepted with
            hauth | ⟨p, rfl, haccepts⟩
          · exact hauth.of_queue
          · refine absurd ⟨p, k, peer, hparse, Except.ok.inj hkey, hpeer, haccepts, ?_⟩ hcookie
            intro hsrc
            rw [endpointOf, hpeer, Option.map_some, hsrc] at hk
            exact hk rfl
        · exact absurd (hmoves.endpointOf k) hk

theorem handleUdpPacket_roams_iff_initiation :
    ∃ (d d' : Device Crypto.sample 8 8192) (outputs : List Output),
      d.handleUdpPacket (Sample.initiationOf 5 1) (Sample.addr 99) = .ok (outputs, d') ∧
      d'.endpointOf (Sample.key 5) ≠ d.endpointOf (Sample.key 5) ∧
      RoamsAuthentic d d' (Sample.initiationOf 5 1) := by
  have hcheck : Sample.runAnd 1 [Sample.peerConfig 5 Sample.lan none] []
      (fun (_, d) => okAnd (fun (_, d') =>
          d'.endpointOf (Sample.key 5) ≠ d.endpointOf (Sample.key 5) &&
            okAnd (fun packet => packet matches .handshakeInit _)
              (parseIncomingPacket (Sample.initiationOf 5 1)))
        (d.handleUdpPacket (Sample.initiationOf 5 1) (Sample.addr 99))) = true := by
    decide +kernel
  obtain ⟨start, earlier, d, -, -, hhandled⟩ := Sample.exists_of_runAnd hcheck
  obtain ⟨⟨outputs, d'⟩, hcall, hcheck⟩ := exists_of_okAnd hhandled
  rw [Bool.and_eq_true] at hcheck
  obtain ⟨packet, hparse, hinit⟩ := exists_of_okAnd hcheck.2
  refine ⟨d, d', outputs, hcall, of_decide_eq_true hcheck.1, ?_⟩
  apply (handleUdpPacket_roams_iff d _ _ hcall).mpr
  rintro ⟨p, -, -, hcookie, -⟩
  cases hparse.symm.trans hcookie
  cases hinit

def isCookieReply : Packet → Bool
  | .cookieReply _ => true
  | _ => false

/-- Somebody who sees an initiation, and knows the public key of the peer it is for, moves the
endpoint of that peer with a cookie reply. -/
theorem cookie_reply_roams :
    ∃ (d d' : Device Crypto.sample 8 8192) (outputs : List Output),
      d.handleUdpPacket (Sample.forgedCookieReply (Sample.key 5) (Sample.initiationOf 1 5))
        (Sample.addr 99) = .ok (outputs, d') ∧
      d'.endpointOf (Sample.key 5) = some (some (Sample.addr 99)) ∧
      ¬RoamsAuthentic d d'
        (Sample.forgedCookieReply (Sample.key 5) (Sample.initiationOf 1 5)) := by
  have hcheck : Sample.runAnd 1 [Sample.peerConfig 5 Sample.lan none]
      [.tunPacket Sample.innerPacket (by decide)]
      (fun r => okAnd (fun r' =>
          (r.2.endpointOf (Sample.key 5) = some (some (Sample.addr 5)) ∧
            r'.2.endpointOf (Sample.key 5) = some (some (Sample.addr 99))) &&
            okAnd isCookieReply
              (parseIncomingPacket
                (Sample.forgedCookieReply (Sample.key 5) (Sample.initiationOf 1 5))))
        (r.2.handleUdpPacket (Sample.forgedCookieReply (Sample.key 5) (Sample.initiationOf 1 5))
          (Sample.addr 99))) = true := by
    decide +kernel
  obtain ⟨start, earlier, d, -, -, hhandled⟩ := Sample.exists_of_runAnd hcheck
  obtain ⟨⟨outputs, d'⟩, hcall, hcheck⟩ := exists_of_okAnd hhandled
  rw [Bool.and_eq_true] at hcheck
  obtain ⟨hbefore, hafter⟩ := of_decide_eq_true hcheck.1
  obtain ⟨packet, hparse, hcookie⟩ := exists_of_okAnd hcheck.2
  refine ⟨d, d', outputs, hcall, hafter, fun hroams => ?_⟩
  have hchanged : d'.endpointOf (Sample.key 5) ≠ d.endpointOf (Sample.key 5) := by
    rw [hbefore, hafter]
    decide
  obtain ⟨packet', peer, hparse', -, -, hauth⟩ := hroams _ hchanged
  cases hparse.symm.trans hparse'
  cases packet with
  | cookieReply p => exact hauth
  | _ => cases hcookie

end Device

end Tendrilix
