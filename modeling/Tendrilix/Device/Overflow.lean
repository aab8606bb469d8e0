import Tendrilix.Device.BufferSize
import Tendrilix.Device.RelayQueue
import Tendrilix.Noise.KeyConfirmation

/-!
# Runs that fit the buffers

Only a handshake message starts a flush. As long as none comes from a peer behind a relay while a
bulky packet waits for the peer, no buffer is too small.
-/

namespace Tendrilix

open Noise

variable {K : Crypto} {N BYTES : ℕ}

def Noise.Packet.ciphertext : Packet → Bytes
  | .data p | .relayData p => p.encryptedEncapsulatedPacket
  | _ => []

theorem Noise.parseIncomingPacket_ciphertext {datagram : Bytes} {packet : Packet}
    (h : parseIncomingPacket datagram = .ok packet) :
    packet.ciphertext.length + 16 ≤ datagram.length := by
  have hdata : dataOverheadSz ≤ datagram.length →
      (Data.parse datagram).encryptedEncapsulatedPacket.length + 16 ≤ datagram.length := by
    intro hlong
    have hoverhead : dataOverheadSz = 32 := rfl
    rw [Data.parse, List.length_drop]
    omega
  rw [parseIncomingPacket] at h
  dsimp only at h
  split at h
  · cases h
  split at h
  · rename_i hinit
    cases h
    rw [hinit.2]
    change 0 + 16 ≤ handshakeInitSz
    decide
  split at h
  · rename_i hresp
    cases h
    rw [hresp.2]
    change 0 + 16 ≤ handshakeRespSz
    decide
  split at h
  · rename_i hcookie
    cases h
    rw [hcookie.2]
    change 0 + 16 ≤ cookieReplySz
    decide
  split at h
  · rename_i hlong
    cases h
    exact hdata hlong.2
  split at h
  · rename_i hlong
    cases h
    exact hdata hlong.2
  · cases h

namespace Noise.Tunn

variable {t t' : Tunn K} {w w' : World K N BYTES}

theorem handleVerifiedRelayPacket_length {packet : Packet} {dstLen : ℕ} {plaintext : Bytes}
    (call : t.handleVerifiedRelayPacket packet dstLen = .ok (.ok plaintext, t')) :
    plaintext.length = packet.ciphertext.length - aeadSize := by
  cases packet with
  | relayData p =>
    obtain ⟨s, s', -, hreceive, -⟩ := decryptRawData_ok call
    have hopened := Session.receivePacketData_plaintext hreceive
    rw [K.length_decrypt _ _ _ _ _ _ hopened, List.length_take, min_eq_left (Nat.sub_le _ _)]
    rfl
  | _ => cases call

theorem handleVerifiedPacket_answer {packet : Packet} {answer : Bytes}
    (call : t.handleVerifiedPacket packet maxPacketSize w = .ok (.writeToNetwork answer, t', w')) :
    IsHandshake packet ∧ t.Authenticates packet := by
  have haccepted := handleVerifiedPacket_accepted call rfl
  cases handleVerifiedPacket_cases call with
  | respond | conclude => exact ⟨trivial, haccepted.resolve_right nofun⟩
  | receive hdecrypt hvalid =>
    exact absurd (congrArg Prod.fst hvalid) (validateDecapsulatedPacket_ne _ _ answer)

end Noise.Tunn

namespace Device

variable {d d' : Device K N BYTES} {key : PublicKey} {peer : Peer K}

def Cramped (d : Device K N BYTES) (key : PublicKey) : Prop :=
  ∃ peer relay, d.peers.peerByKey key = some peer ∧ peer.relay = some relay ∧
    (d.peers.peerByKey relay).isSome = true ∧ ∃ v ∈ d.waiting key, Bulky v

def Spared (d : Device K N BYTES) (key : PublicKey) : PublicKey → QueuedPacket → Prop :=
  fun k v => k = key → ∀ peer relay, d.peers.peerByKey key = some peer → peer.relay = some relay →
    (d.peers.peerByKey relay).isSome = true → ¬Bulky v

theorem Sized.spared (h : d.Sized Plain) (hroom : ¬d.Cramped key) : d.Sized (d.Spared key) := by
  obtain ⟨items, hpooled, hitems⟩ := h.waits
  refine ⟨⟨items, hpooled, fun k v hv => ⟨(hitems k v hv).1, ?_⟩⟩, h.params⟩
  rintro rfl peer relay hpeer hrelay hconfigured hbulky
  have hwaiting : v ∈ d.waiting k := hpooled.waiting k ▸ hv
  exact hroom ⟨peer, relay, hpeer, hrelay, hconfigured, v, hwaiting, hbulky⟩

theorem unwrapped_of_spared (hsame : PeerState.SameBy (·.relay) d.peers d'.peers) {k : PublicKey}
    {v : QueuedPacket} (h : d.Spared key k v) : d'.Unwrapped key k v := by
  intro hk peer' relay hpeer' _ hrelay hconfigured
  obtain ⟨peer, hpeer, heq⟩ := hsame.symm.peer hpeer'
  have hsome := congrArg Option.isSome (hsame relay)
  rw [Option.isSome_map, Option.isSome_map] at hsome
  exact h hk peer relay hpeer (heq.trans hrelay) (hsome ▸ hconfigured)

theorem Sized.setEndpoint {Q : PublicKey → QueuedPacket → Prop} (h : d.Sized Q)
    (hpeer : d.peers.peerByKey key = some peer) (addr : SocketAddr) :
    (d.setEndpoint key peer addr).Sized Q :=
  ⟨h.waits.congr (setEndpoint_queueOf hpeer addr) rfl,
    h.params.setPeer (Bounded.mem_of_lookup hpeer) (h.params key peer hpeer)⟩

theorem handleAttributedPacket_sized {src : SocketAddr} {packet : Packet} (h : d.Sized Plain)
    (hcipher : packet.ciphertext.length + 16 ≤ maxPacketSize)
    (hroom : ∀ peer, d.peers.peerByKey key = some peer → Tunn.IsHandshake packet →
      peer.tunnel.Authenticates packet → ¬d.Cramped key) :
    Ensures (d.handleAttributedPacket key src packet) (fun (_, d') => d'.Sized Plain)
      (· ≠ .destinationBufferTooSmall) := by
  have hfits : packet.ciphertext.length ≤ maxPacketSize := Nat.le_of_add_right_le hcipher
  rw [handleAttributedPacket]
  split
  · exact .ok h
  rename_i peer hpeer
  split
  · rename_i p
    have hroomy : Roomy (peer.tunnel.handleVerifiedRelayPacket (.relayData p) maxPacketSize) := by
      refine Tunn.handleVerifiedRelayPacket_avoids Fault.measured_room _ fun _ p' hp' => ?_
      cases hp'
      exact hfits
    refine Ensures.bind hroomy.ensures ?_
    rintro ⟨r, t⟩ hcall -
    have hsized₁ : (d.setTunnel key peer t d.world).Sized Plain :=
      h.setTunnel hpeer (.receiveRelay hcall)
        ((Tunn.handleVerifiedRelayPacket_sameQueue hcall _).queues fun _ _ => False)
        fun _ h => h.elim
    cases r with
    | error e => exact .ok hsized₁
    | ok plaintext =>
      have hlength := Tunn.handleVerifiedRelayPacket_length hcall
      apply forwardEnvelope_sized hsized₁
      have haead : aeadSize = 16 := rfl
      have hoverhead : packetOverhead = 32 := rfl
      have hmax : maxPacketSize = 1380 := rfl
      omega
  · have hroomy : Roomy (peer.tunnel.handleVerifiedPacket packet maxPacketSize d.world) := by
      refine Tunn.handleVerifiedPacket_avoids Fault.measured_room _ _ (fun _ p hp => ?_)
        fun _ => by decide
      cases hp
      exact hfits
    refine Ensures.bind hroomy.ensures ?_
    rintro ⟨r, t, w⟩ hcall -
    have hset : ∀ Q, d.Sized Q → (d.setTunnel key peer t w).Sized Q := fun Q hQ =>
      hQ.setTunnel hpeer (.receive hcall)
        ((Tunn.handleVerifiedPacket_sameQueue hcall).queues fun _ _ => False) fun _ h => h.elim
    have hrelays : PeerState.SameBy (·.relay) d.peers (d.setTunnel key peer t w).peers :=
      PeerState.SameBy.setPeer _ hpeer rfl
    -- Whether or not the endpoint moves, the same packets wait behind the same relays.
    have hfinish : ∀ d₁ : Device K N BYTES, (∀ Q, d.Sized Q → d₁.Sized Q) →
        PeerState.SameBy (·.relay) d.peers d₁.peers →
        Ensures (d₁.finishUdpPacket key { peer with tunnel := t } r) (fun (_, d') => d'.Sized Plain)
          (· ≠ .destinationBufferTooSmall) := by
      intro d₁ hmove hsame
      apply finishUdpPacket_sized (hmove Plain h)
      rintro answer rfl
      obtain ⟨hhandshake, hauthentic⟩ := Tunn.handleVerifiedPacket_answer hcall
      have hspared := h.spared (hroom peer hpeer hhandshake hauthentic)
      refine ⟨?_, (hmove _ hspared).mono fun k v => unwrapped_of_spared hsame⟩
      rcases Tunn.handleVerifiedPacket_writes hcall answer rfl with
        hhandshaken | ⟨s, packetType, src, ⟨rfl, rfl⟩, -, -, rfl⟩
      · exact hhandshaken.length_le (h.params key peer hpeer)
      · rw [Session.length_datagram]
        decide
    dsimp only
    split
    · have hpeer₁ := setTunnel_peerByKey hpeer t w
      have hmoved : PeerState.SameBy (·.relay) (d.setTunnel key peer t w).peers
          ((d.setTunnel key peer t w).setEndpoint key { peer with tunnel := t } src).peers :=
        PeerState.SameBy.setPeer _ hpeer₁ rfl
      exact hfinish _ (fun Q hQ => (hset Q hQ).setEndpoint hpeer₁ src)
        fun k => (hmoved k).trans (hrelays k)
    · exact hfinish _ hset hrelays

def Greets (d : Device K N BYTES) (datagram : Bytes) (src : SocketAddr) (key : PublicKey)
    (d' : Device K N BYTES) : Prop :=
  ∃ packet rateLimiter w dropped peer,
    d.rateLimiter.verifyPacket (some src.ip) datagram maxPacketSize d.world =
      (.ok packet, rateLimiter, w) ∧
    { d with rateLimiter := rateLimiter, world := w }.peerKeyOf packet = .ok (some key) ∧
    { d with rateLimiter := rateLimiter, world := w }.dropExpiredPacketQueues = .ok (dropped, d') ∧
    d'.peers.peerByKey key = some peer ∧ Tunn.IsHandshake packet ∧ peer.tunnel.Authenticates packet

/-- The event makes the device flush a bulky packet to a peer behind a relay. -/
def Overflows (d : Device K N BYTES) : Event → Prop
  | .udpPacket datagram _ src => ∃ key d', d.Greets datagram src.normalize key d' ∧ d'.Cramped key
  | _ => False

theorem handleUdpPacket_sized (h : d.Sized Plain) {datagram : Bytes} {src : SocketAddr}
    (hfits : datagram.length ≤ maxPacketSize)
    (hroom : ∀ key d', d.Greets datagram src key d' → ¬d'.Cramped key) :
    Ensures (d.handleUdpPacket datagram src) (fun (_, d') => d'.Sized Plain)
      (· ≠ .destinationBufferTooSmall) := by
  have hpool := d.rateLimiter.verifyPacket_pool (some src.ip) datagram maxPacketSize d.world
  rw [handleUdpPacket]
  rcases hverify : d.rateLimiter.verifyPacket (some src.ip) datagram maxPacketSize d.world with
    ⟨verified, rateLimiter, w⟩
  rw [hverify] at hpool
  have hsized₁ : Sized Plain { d with rateLimiter := rateLimiter, world := w } :=
    ⟨h.waits.congr rfl hpool, h.params⟩
  dsimp only
  split
  · exact .ok hsized₁
  · exact .ok hsized₁
  rename_i packet
  refine Ensures.bind (peerKeyOf_roomy _ packet).ensures ?_
  rintro peerKey hkey -
  cases peerKey with
  | none => exact .ok hsized₁
  | some peerKey =>
    refine Ensures.bind (dropExpiredPacketQueues_sized hsized₁) ?_
    rintro ⟨dropped, d₁⟩ hdrop ⟨hsized₂, -⟩
    have hparse := RateLimiter.verifyPacket_ok (congrArg Prod.fst hverify)
    apply handleAttributedPacket_sized hsized₂ ((parseIncomingPacket_ciphertext hparse).trans hfits)
    intro peer hpeer hhandshake hauthentic
    exact hroom peerKey d₁ ⟨packet, rateLimiter, w, dropped, peer, hverify, hkey, hdrop, hpeer,
      hhandshake, hauthentic⟩

theorem updateTimers_sized (h : d.Sized Plain) (hpeer : d.peers.peerByKey key = some peer) :
    Ensures (peer.tunnel.updateTimers maxPacketSize d.world)
      (fun (r, t, w) => (d.setTunnel key peer t w).Sized Plain ∧
        ∀ packet, r = .writeToNetwork packet → packet.length ≤ handshakeInitSz)
      (· ≠ .destinationBufferTooSmall) := by
  constructor
  · rintro ⟨r, t, w⟩ hcall
    refine ⟨h.setTunnel hpeer (.timers hcall) (Tunn.updateTimers_queues hcall) ?_, ?_⟩
    · rintro v ⟨-, hv⟩
      refine ⟨?_, trivial⟩
      rw [Fits, hv]
      decide
    · rintro packet rfl
      rcases Tunn.updateTimers_writes hcall packet rfl with
        hhandshaken | ⟨s, packetType, src, ⟨rfl, rfl⟩, -, -, rfl⟩
      · exact hhandshaken.length_le (h.params key peer hpeer)
      · rw [Session.length_datagram]
        decide
  · rintro _ hfault rfl
    exact Tunn.updateTimers_avoids Fault.measured_room (fun _ => by decide)
      (fun h => by cases h) hfault

theorem timerLoop_sized {keys : List PublicKey} (h : d.Sized Plain) :
    Ensures (timerLoop keys d) (fun (_, d') => d'.Sized Plain)
      (· ≠ .destinationBufferTooSmall) := by
  induction keys generalizing d with
  | nil => exact .ok h
  | cons key keys ih =>
    rw [timerLoop]
    refine Ensures.bind (dropExpiredPacketQueues_sized h) ?_
    rintro ⟨dropped, d₁⟩ - ⟨hsized₁, -⟩
    dsimp only
    split
    · exact ih hsized₁
    rename_i peer hpeer
    refine Ensures.bind (updateTimers_sized hsized₁ hpeer) ?_
    rintro ⟨r, t, w⟩ - ⟨hsized₂, hlength⟩
    cases r with
    | done | err => exact ih hsized₂
    | writeToNetwork packet =>
      refine Ensures.bind (preparePacketToPeer_sized hsized₂
        (fun _ _ _ _ _ => wraps_of_le (hlength packet rfl)) fun _ _ _ _ _ _ => trivial) ?_
      rintro ⟨pending, d₂⟩ - ⟨hsized₃, -⟩
      refine Ensures.bind (ih hsized₃) ?_
      rintro ⟨outputs, d₃⟩ - hsized₄
      exact .ok hsized₄
    | writeToInterfaceV4 | writeToInterfaceV6 => exact .error nofun

theorem tick_sized (h : d.Sized Plain) (order : List PublicKey) :
    Ensures (d.tick order) (fun (_, d') => d'.Sized Plain) (· ≠ .destinationBufferTooSmall) := by
  refine Ensures.bind (timerLoop_sized h) ?_
  rintro ⟨outputs, d₁⟩ - hsized₁
  have hpool := congrArg World.pool (d₁.rateLimiter.resetCount_world d₁.world)
  dsimp only
  split
  · exact .ok ⟨hsized₁.waits.congr rfl hpool, hsized₁.params⟩
  · exact .ok ⟨hsized₁.waits.congr rfl rfl, hsized₁.params⟩

theorem step_sized (h : d.Sized Plain) {e : Event} (hroom : ¬d.Overflows e) :
    Ensures (d.step e) (fun (_, d') => d'.Sized Plain) (· ≠ .destinationBufferTooSmall) := by
  cases e with
  | tunPacket packet fits => exact handleTunPacket_sized h fits
  | udpPacket datagram fits src =>
    exact handleUdpPacket_sized h fits fun key d' hgreets hcramped =>
      hroom ⟨key, d', hgreets, hcramped⟩
  | tick order => exact tick_sized h order
  | command c =>
    refine Ensures.bind (d.handlePeerUpdate_roomy c).ensures ?_
    rintro ⟨completion, d₁⟩ hcall -
    exact .ok ⟨handlePeerUpdate_waits hcall h.waits,
      handlePeerUpdate_all (keyFits_inherited _) hcall h.params⟩
  | reorder order => exact .ok ⟨h.waits.reorder order, h.params.reorder order⟩

theorem new_sized {profile : Profile} {config : Config K} {resources : Resources} {draws : Draws}
    {clock : ℕ → ℕ} {secrets : ℕ → K.Secret}
    (h : new profile config resources draws clock secrets = .ok (.ok d)) : d.Sized Plain :=
  ⟨⟨fun _ => [], (new_pooled h).1, fun _ _ hv => nomatch hv⟩, new_all (keyFits_inherited _) h⟩

theorem not_overflows (h : d.Waits fun _ v => ¬Bulky v) (e : Event) : ¬d.Overflows e := by
  cases e with
  | udpPacket datagram fits src =>
    rintro ⟨key, d', ⟨packet, rateLimiter, w, dropped, peer, hverify, -, hdrop, -⟩, hcramped⟩
    have hpool := d.rateLimiter.verifyPacket_pool (some src.normalize.ip) datagram maxPacketSize
      d.world
    rw [hverify] at hpool
    have hwaits₁ : Waits (fun _ v => ¬Bulky v) { d with rateLimiter := rateLimiter, world := w } :=
      h.congr rfl hpool
    obtain ⟨⟨items, hpooled, hitems⟩, -⟩ := dropExpiredPacketQueues_waits hdrop hwaits₁
    obtain ⟨-, relay, -, -, -, v, hv, hbulky⟩ := hcramped
    rw [hpooled.waiting] at hv
    exact hitems key v hv hbulky
  | _ => exact id

/-- A device that never flushes a bulky packet to a peer behind a relay never finds a buffer too
small. -/
theorem run_fits {profile : Profile} {config : Config K} {resources : Resources} {draws : Draws}
    {clock : ℕ → ℕ} {secrets : ℕ → K.Secret}
    (hnew : new profile config resources draws clock secrets = .ok (.ok d)) {events : List Event}
    (hroom : Machine.Along step (fun d e => ¬d.Overflows e) d events) :
    Machine.run step d events ≠ .error .destinationBufferTooSmall := by
  have hstep : ∀ (d : Device K N BYTES) e, ¬d.Overflows e → d.Sized Plain →
      Ensures (d.step e) (fun (_, d') => d'.Sized Plain) (· ≠ .destinationBufferTooSmall) :=
    fun d e hroom hsized => step_sized hsized hroom
  apply Machine.run_avoids_along (I := Sized Plain) _ _ hroom (new_sized hnew)
  · exact fun d e hroom hsized => .of_ensures (hstep d e hroom hsized) fun hne => hne rfl
  · exact fun d e outputs d' hroom hsized hcall => (hstep d e hroom hsized).1 _ hcall

end Device

/-! ### Two relays, each behind the other -/

namespace Sample

open Device

def crossedPeers : List PeerConfig :=
  [peerConfig 5 lan (some (key 7)), peerConfig 7 [] (some (key 5))]

def longPacket : Bytes := innerPacket ++ Bytes.zeros 1196

theorem longPacket_fits : longPacket.length ≤ mtu := by decide +kernel

theorem greeting_fits : (initiationOf 5 1).length ≤ maxPacketSize := by decide +kernel

def queueing : List Event :=
  [.udpPacket (initiationOf 5 1) greeting_fits (addr 5), .tunPacket longPacket longPacket_fits]

def flushing : Event := .udpPacket (initiationOf 7 1) initiationOf_fits (addr 7)

def findsTooSmall {α : Type} : Call α → Bool
  | .error .destinationBufferTooSmall => true
  | _ => false

theorem eq_of_findsTooSmall {α : Type} {call : Call α} (h : findsTooSmall call = true) :
    call = .error .destinationBufferTooSmall := by
  rw [findsTooSmall.eq_def] at h
  split at h
  · rfl
  · cases h

/-- The envelope of a queued envelope is sealed in a buffer that is too small. -/
theorem crossed_overflow : ∃ start, device 1 crossedPeers = .ok (.ok start) ∧
    Machine.run step start (queueing ++ [flushing]) = .error .destinationBufferTooSmall := by
  have hran : okAnd (okAnd fun start => findsTooSmall (Machine.run step start (queueing ++ [flushing])))
      (device 1 crossedPeers) = true := by decide +kernel
  obtain ⟨r, hnew, hstarted⟩ := exists_of_okAnd hran
  obtain ⟨start, rfl, hfound⟩ := exists_of_okAnd hstarted
  exact ⟨start, hnew, eq_of_findsTooSmall hfound⟩

def shortQueueing : List Event :=
  [.udpPacket (initiationOf 5 1) greeting_fits (addr 5), .tunPacket innerPacket length_innerPacket_le]

theorem run_fits_queueing : ∃ start outputs d, device 1 crossedPeers = .ok (.ok start) ∧
    Machine.run step start shortQueueing = .ok (outputs, d) ∧
    (d.waiting (key 7)).map (·.data.length) = [128, 100] ∧
    Machine.Along step (fun d e => ¬d.Overflows e) start (shortQueueing ++ [flushing]) ∧
    Machine.run step start (shortQueueing ++ [flushing]) ≠ .error .destinationBufferTooSmall := by
  have hran : runAnd 1 crossedPeers shortQueueing (fun (_, d) =>
      (d.waiting (key 7)).map (·.data.length) = [128, 100] ∧
      ∀ k ∈ d.peers.peerKeys, ∀ v ∈ d.waiting k, v.data.length ≤ mtu) = true := by decide +kernel
  obtain ⟨start, outputs, d, hnew, hrun, hchecks⟩ := exists_of_runAnd hran
  obtain ⟨hwaits, hsmall⟩ := of_decide_eq_true hchecks
  have hempty : start.Waits fun _ v => ¬Bulky v :=
    ⟨fun _ => [], (new_pooled hnew).1, fun _ _ hv => nomatch hv⟩
  have hspare : d.Waits fun _ v => ¬Bulky v := by
    obtain ⟨items, hpooled, -⟩ := run_orphans hrun (new_pooled hnew).1
    refine ⟨items, hpooled, fun k v hv hbulky => ?_⟩
    rw [← hpooled.waiting] at hv
    by_cases hk : k ∈ d.peers.peers
    · exact absurd hbulky.1 (not_lt.mpr (hsmall k hk v hv))
    · rw [waiting, queueOf, PeerState.peerByKey, AList.lookup_eq_none.mpr hk] at hv
      cases hv
  have halong : Machine.Along step (fun d e => ¬d.Overflows e) start (shortQueueing ++ [flushing]) := by
    refine Machine.Along.append ⟨not_overflows hempty _, ?_⟩ fun os t hrun' => ?_
    · split
      · exact ⟨id, by split <;> trivial⟩
      · trivial
    · cases hrun.symm.trans hrun'
      exact ⟨not_overflows hspare _, by split <;> trivial⟩
  exact ⟨start, outputs, d, hnew, hrun, hwaits, halong, run_fits hnew halong⟩

end Sample

end Tendrilix
