import Tendrilix.Machine
import Tendrilix.Noise.Effects

/-!
# Runs of a tunnel

A run is any sequence of calls on a tunnel that starts out new. Datagrams arrive in any order, as
often as the network likes. Other tunnels may use the shared pool between two calls.
-/

namespace Tendrilix.Noise

variable {K : Crypto} {N BYTES : ℕ}

def World.start (clock : ℕ → ℕ) (secrets : ℕ → K.Secret) (pool : PacketPool N BYTES) :
    World K N BYTES where
  clock := clock
  secrets := secrets
  pool := pool

namespace Tunn

inductive Op (N BYTES : ℕ)
  | encapsulate (src : Bytes) (dstLen : ℕ)
  | encapsulateRelay (src : Bytes) (dstLen : ℕ)
  | flushQueuedPacket (dstLen : ℕ)
  | updateTimers (dstLen : ℕ)
  | formatHandshakeInitiation (dstLen : ℕ) (forceResend : Bool)
  | dropExpiredQueuedPackets
  | clearPacketQueue
  | setPersistentKeepalive (keepalive : Option ℕ)
  | handleVerifiedPacket (datagram : Bytes) (dstLen : ℕ)
  | handleVerifiedRelayPacket (datagram : Bytes) (dstLen : ℕ)
  | sharePool (pool : PacketPool N BYTES)

inductive Reply
  | tunn (r : TunnResult)
  | relay (r : Outcome Bytes)

def step (s : Tunn K × World K N BYTES) :
    Op N BYTES → Call (Reply × Tunn K × World K N BYTES)
  | .encapsulate src dstLen => do
    let (r, t, w) ← s.1.encapsulate src dstLen s.2
    return (.tunn r, t, w)
  | .encapsulateRelay src dstLen => do
    let (r, t, w) ← s.1.encapsulateRelay src dstLen s.2
    return (.tunn r, t, w)
  | .flushQueuedPacket dstLen => do
    let (r, t, w) ← s.1.flushQueuedPacket dstLen s.2
    return (.tunn r, t, w)
  | .updateTimers dstLen => do
    let (r, t, w) ← s.1.updateTimers dstLen s.2
    return (.tunn r, t, w)
  | .formatHandshakeInitiation dstLen forceResend => do
    let (r, t, w) ← s.1.formatHandshakeInitiation dstLen forceResend s.2
    return (.tunn r, t, w)
  | .dropExpiredQueuedPackets => do
    let (now, w) := s.2.now
    let (_, t, w) ← s.1.dropExpiredQueuedPackets now w
    return (.tunn .done, t, w)
  | .clearPacketQueue => do
    let (t, w) ← s.1.clearPacketQueue s.2
    return (.tunn .done, t, w)
  | .setPersistentKeepalive keepalive =>
    .ok (.tunn .done, s.1.setPersistentKeepalive keepalive, s.2)
  | .handleVerifiedPacket datagram dstLen =>
    match parseIncomingPacket datagram with
    | .error e => .ok (.tunn (.err e), s)
    | .ok packet => do
      let (r, t, w) ← s.1.handleVerifiedPacket packet dstLen s.2
      return (.tunn r, t, w)
  | .handleVerifiedRelayPacket datagram dstLen =>
    match parseIncomingPacket datagram with
    | .error e => .ok (.relay (.error e), s)
    | .ok packet => do
      let (r, t) ← s.1.handleVerifiedRelayPacket packet dstLen
      return (.relay r, t, s.2)
  | .sharePool pool => .ok (.tunn .done, s.1, { s.2 with pool := pool })

def acceptedDatagram : Op N BYTES → Reply → Option Bytes
  | .handleVerifiedPacket datagram _, .tunn r =>
    match parseIncomingPacket datagram, r with
    | .error _, _ => none
    | .ok (.cookieReply _), _ => none
    | .ok _, .err _ => none
    | .ok _, _ => some datagram
  | .handleVerifiedRelayPacket datagram _, .relay r => if r.isOk then some datagram else none
  | _, _ => none

def acceptedDatagrams (ops : List (Op N BYTES)) (replies : List Reply) : List Bytes :=
  (ops.zip replies).filterMap fun (op, reply) => acceptedDatagram op reply

def Delivered (ops : List (Op N BYTES)) (packet : Packet) : Prop :=
  ∃ datagram dstLen, parseIncomingPacket datagram = .ok packet ∧
    (.handleVerifiedPacket datagram dstLen ∈ ops ∨ .handleVerifiedRelayPacket datagram dstLen ∈ ops)

theorem Delivered.mono {ops more : List (Op N BYTES)} {packet : Packet} (h : Delivered ops packet)
    (hsub : ops ⊆ more) : Delivered more packet := by
  obtain ⟨datagram, dstLen, hparse, hmem⟩ := h
  exact ⟨datagram, dstLen, hparse, hmem.imp (hsub ·) (hsub ·)⟩

variable {s s' : Tunn K × World K N BYTES}

def Op.receives : Op N BYTES → Bool
  | .handleVerifiedPacket _ _ | .handleVerifiedRelayPacket _ _ => true
  | _ => false

theorem step_silent {op : Op N BYTES} {reply : Reply} (hop : op.receives = false)
    (h : step s op = .ok (reply, s')) : Path s.1 s.2 [] s'.1 s'.2 := by
  cases op with
  | encapsulate src dstLen =>
    obtain ⟨⟨r, t, w⟩, hcall, h⟩ := bind_ok_iff.mp h
    cases h
    exact encapsulateWithType_path hcall
  | encapsulateRelay src dstLen =>
    obtain ⟨⟨r, t, w⟩, hcall, h⟩ := bind_ok_iff.mp h
    cases h
    exact encapsulateWithType_path hcall
  | flushQueuedPacket dstLen =>
    obtain ⟨⟨r, t, w⟩, hcall, h⟩ := bind_ok_iff.mp h
    cases h
    exact flushQueuedPacket_path hcall
  | updateTimers dstLen =>
    obtain ⟨⟨r, t, w⟩, hcall, h⟩ := bind_ok_iff.mp h
    cases h
    exact updateTimers_path hcall
  | formatHandshakeInitiation dstLen forceResend =>
    obtain ⟨⟨r, t, w⟩, hcall, h⟩ := bind_ok_iff.mp h
    cases h
    exact formatHandshakeInitiation_path hcall
  | dropExpiredQueuedPackets =>
    obtain ⟨⟨dropped, t, w⟩, hcall, h⟩ := bind_ok_iff.mp h
    cases h
    exact .silent (.read s.1 s.2) (dropExpiredQueuedPackets_path hcall)
  | clearPacketQueue =>
    obtain ⟨⟨t, w⟩, hcall, h⟩ := bind_ok_iff.mp h
    cases h
    exact clearPacketQueue_path hcall
  | setPersistentKeepalive keepalive =>
    cases h
    exact .single (.timers (s.1.timers.setPersistentKeepalive_sameClock keepalive))
  | sharePool pool =>
    cases h
    exact .single (.queue s.1 s.2 s.1.packetQueue pool)
  | handleVerifiedPacket datagram dstLen => cases hop
  | handleVerifiedRelayPacket datagram dstLen => cases hop

theorem acceptedDatagram_of_silent {op : Op N BYTES} (hop : op.receives = false) (reply : Reply) :
    acceptedDatagram op reply = none := by
  cases op with
  | handleVerifiedPacket datagram dstLen => cases hop
  | handleVerifiedRelayPacket datagram dstLen => cases hop
  | _ => rfl

theorem step_path {op : Op N BYTES} {reply : Reply} (h : step s op = .ok (reply, s')) :
    ∃ ls, Path s.1 s.2 ls s'.1 s'.2 ∧ (∀ packet ∈ ls, Delivered [op] packet) ∧
      ∀ datagram, acceptedDatagram op reply = some datagram →
        ∃ packet, parseIncomingPacket datagram = .ok packet ∧ ls = [packet] := by
  cases hop : op.receives with
  | false =>
    refine ⟨[], step_silent hop h, fun _ hmem => absurd hmem List.not_mem_nil,
      fun datagram hacc => ?_⟩
    rw [acceptedDatagram_of_silent hop] at hacc
    cases hacc
  | true =>
    cases op with
    | handleVerifiedPacket datagram dstLen =>
      simp only [step] at h
      cases hparse : parseIncomingPacket datagram with
      | error e =>
        simp only [hparse] at h
        cases h
        refine ⟨[], .nil _ _, fun _ hmem => absurd hmem List.not_mem_nil, fun d hacc => ?_⟩
        simp [acceptedDatagram, hparse] at hacc
      | ok packet =>
        simp only [hparse] at h
        obtain ⟨⟨r, t, w⟩, hcall, h⟩ := bind_ok_iff.mp h
        cases h
        obtain ⟨ls, hpath, hsub, hls⟩ := handleVerifiedPacket_path hcall
        refine ⟨ls, hpath, fun l hmem => ?_, fun d hacc => ?_⟩
        · rw [List.mem_singleton.mp (hsub hmem)]
          exact ⟨datagram, dstLen, hparse, .inl List.mem_cons_self⟩
        have haccepts : Accepts packet r ∧ datagram = d := by
          simp only [acceptedDatagram, hparse] at hacc
          cases packet <;> cases r <;> simp_all [Accepts]
        obtain ⟨haccepts, rfl⟩ := haccepts
        exact ⟨packet, hparse, hls haccepts⟩
    | handleVerifiedRelayPacket datagram dstLen =>
      simp only [step] at h
      cases hparse : parseIncomingPacket datagram with
      | error e =>
        simp only [hparse] at h
        cases h
        exact ⟨[], .nil _ _, fun _ hmem => absurd hmem List.not_mem_nil, fun d hacc => nomatch hacc⟩
      | ok packet =>
        simp only [hparse] at h
        obtain ⟨⟨r, t⟩, hcall, h⟩ := bind_ok_iff.mp h
        cases h
        obtain ⟨ls, hpath, hsub, hls⟩ := handleVerifiedRelayPacket_path (w := s.2) hcall
        refine ⟨ls, hpath, fun l hmem => ?_, fun d hacc => ?_⟩
        · rw [List.mem_singleton.mp (hsub hmem)]
          exact ⟨datagram, dstLen, hparse, .inr List.mem_cons_self⟩
        simp only [acceptedDatagram] at hacc
        split at hacc
        · rename_i hok
          cases hacc
          exact ⟨packet, hparse, hls hok⟩
        · cases hacc
    | _ => cases hop

/-- The packets that a run authenticates are those of datagrams it is given, and include those of the
datagrams it accepts. -/
theorem run_path {ops : List (Op N BYTES)} {replies : List Reply}
    (h : Machine.run step s ops = .ok (replies, s')) :
    ∃ ls, Path s.1 s.2 ls s'.1 s'.2 ∧ (∀ packet ∈ ls, Delivered ops packet) ∧
      List.Sublist ((acceptedDatagrams ops replies).map parseIncomingPacket) (ls.map .ok) := by
  induction ops generalizing s replies with
  | nil =>
    cases h
    exact ⟨[], .nil _ _, fun _ hmem => absurd hmem List.not_mem_nil, .slnil⟩
  | cons op ops ih =>
    obtain ⟨reply, s₁, replies', hstep, hrun, rfl⟩ := Machine.run_cons_ok.mp h
    obtain ⟨ls, hpath, hgiven, hls⟩ := step_path hstep
    obtain ⟨ls', hpath', hgiven', hsub⟩ := ih hrun
    refine ⟨ls ++ ls', hpath.append hpath', fun packet hmem => ?_, ?_⟩
    · rcases List.mem_append.mp hmem with hmem | hmem
      · exact (hgiven packet hmem).mono (List.cons_subset_cons op (List.nil_subset ops))
      · exact (hgiven' packet hmem).mono (List.subset_cons_self op ops)
    rw [acceptedDatagrams, List.zip_cons_cons, List.filterMap_cons, List.map_append]
    cases hacc : acceptedDatagram op reply with
    | none =>
      simp only [hacc]
      exact hsub.trans (List.sublist_append_right _ _)
    | some datagram =>
      obtain ⟨packet, hparse, rfl⟩ := hls datagram hacc
      simp only [hacc, List.map_cons, hparse]
      exact hsub.cons_cons _

end Tunn

/-! ### A sample run

The responder is sent an initiation and the keepalive that completes the handshake, each of them
twice, and then sends a packet of its own. -/

namespace Sample

def world : World Crypto.sample 8 8192 :=
  .start (fun n => n * 1000) (fun n => (n + 21 : ℕ)) (.new 8 8192 .alloc)

def initiatorSecret : Crypto.sample.Secret := (5 : ℕ)

def responderSecret : Crypto.sample.Secret := (11 : ℕ)

def initiator : Tunn Crypto.sample × World Crypto.sample 8 8192 :=
  Tunn.new initiatorSecret (Crypto.sample.publicKey responderSecret) none 1 ⟨0, 0⟩ world

def responder : Tunn Crypto.sample × World Crypto.sample 8 8192 :=
  Tunn.new responderSecret (Crypto.sample.publicKey initiatorSecret) none 2 ⟨0, 0⟩ world

def lastSent (s : Tunn Crypto.sample × World Crypto.sample 8 8192) (ops : List (Tunn.Op 8 8192)) :
    Bytes :=
  match Machine.run Tunn.step s ops with
  | .ok (replies, _) =>
    match replies.getLast? with
    | some (.tunn (.writeToNetwork packet)) => packet
    | _ => []
  | .error _ => []

def initiation : Bytes := lastSent initiator [.formatHandshakeInitiation maxPacketSize false]

def response : Bytes := lastSent responder [.handleVerifiedPacket initiation maxPacketSize]

def keepalive : Bytes :=
  lastSent initiator [.formatHandshakeInitiation maxPacketSize false,
    .handleVerifiedPacket response maxPacketSize]

def ops : List (Tunn.Op 8 8192) :=
  [.handleVerifiedPacket initiation maxPacketSize, .handleVerifiedPacket initiation maxPacketSize,
    .handleVerifiedPacket keepalive maxPacketSize, .handleVerifiedPacket keepalive maxPacketSize,
    .encapsulate [1, 2, 3] maxPacketSize]

def slowWorld : World Crypto.sample 8 8192 :=
  .start (fun n => n * 20000000) (fun n => (n + 21 : ℕ)) (.new 8 8192 .alloc)

def rekeyInitiator : Tunn Crypto.sample × World Crypto.sample 8 8192 :=
  Tunn.new initiatorSecret (Crypto.sample.publicKey responderSecret) none 1 ⟨0, 0⟩ slowWorld

def rekeyResponder : Tunn Crypto.sample × World Crypto.sample 8 8192 :=
  Tunn.new responderSecret (Crypto.sample.publicKey initiatorSecret) none 2 ⟨0, 0⟩ slowWorld

def firstInitiation : Bytes :=
  lastSent rekeyInitiator [.formatHandshakeInitiation maxPacketSize false]

def firstResponse : Bytes :=
  lastSent rekeyResponder [.handleVerifiedPacket firstInitiation maxPacketSize]

def secondInitiation : Bytes :=
  lastSent rekeyInitiator [.formatHandshakeInitiation maxPacketSize false,
    .handleVerifiedPacket firstResponse maxPacketSize, .formatHandshakeInitiation maxPacketSize true]

end Sample

end Tendrilix.Noise
