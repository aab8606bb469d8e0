import Tendrilix.IpPacket
import Tendrilix.Noise.Handshake
import Tendrilix.Noise.Timers
import Tendrilix.PacketPool.Queue

/-!
# Tunnels

A tunnel is a point-to-point connection: the handshake in progress, the most recent sessions, the
ends of its pending queue, its timers and its traffic counters.
-/

namespace Tendrilix.Noise

open Bytes

variable {K : Crypto} {N BYTES : ℕ}

inductive TunnResult
  | done
  | err (e : WireGuardError)
  | writeToNetwork (packet : Bytes)
  | writeToInterfaceV4 (packet : Bytes) (addr : Ipv4Addr)
  | writeToInterfaceV6 (packet : Bytes) (addr : Ipv6Addr)
  deriving DecidableEq

/-- `unwrap_or_else(TunnResult::from)` -/
def TunnResult.ofOutcome : Outcome TunnResult → TunnResult
  | .ok r => r
  | .error e => .err e

/-- Payload bytes, and packets of any kind. -/
structure Traffic where
  txBytes : ℕ := 0
  rxBytes : ℕ := 0
  txPackets : ℕ := 0
  rxPackets : ℕ := 0
  deriving DecidableEq

structure Tunn (K : Crypto) where
  stamper : TimeStamper
  handshake : Handshake K
  sessions : Fin 3 → Option Session := fun _ => none
  current : ℕ := 0
  packetQueue : PacketQueue := {}
  timers : Timers
  traffic : Traffic := {}

namespace Tunn

def new (staticPrivate : K.Secret) (peerStaticPublic : Bytes) (persistentKeepalive : Option ℕ)
    (index : ℕ) (stamper : TimeStamper) (w : World K N BYTES) : Tunn K × World K N BYTES :=
  let staticPublic := K.publicKey staticPrivate
  let (timers, w) := Timers.new persistentKeepalive w
  ({ stamper := stamper
     handshake := .new staticPrivate staticPublic peerStaticPublic index
     timers := timers }, w)

def isExpired (t : Tunn K) : Bool := t.handshake.isExpired

def timerTick (t : Tunn K) (name : TimerName) : Tunn K := { t with timers := t.timers.tick name }

def timerTickSessionEstablished (t : Tunn K) (isInitiator : Bool) (sessionIdx : ℕ) : Tunn K :=
  { t with timers := t.timers.tickSessionEstablished isInitiator sessionIdx }

/-- One packet that carries `bytes` of payload was sent. -/
def countSent (t : Tunn K) (bytes : ℕ) : Tunn K :=
  { t with traffic := { t.traffic with
      txBytes := t.traffic.txBytes + bytes
      txPackets := t.traffic.txPackets + 1 } }

def countReceived (t : Tunn K) : Tunn K :=
  { t with traffic := { t.traffic with rxPackets := t.traffic.rxPackets + 1 } }

def countReceivedBytes (t : Tunn K) (bytes : ℕ) : Tunn K :=
  { t with traffic := { t.traffic with rxBytes := t.traffic.rxBytes + bytes } }

def setPersistentKeepalive (t : Tunn K) (persistentKeepalive : Option ℕ) : Tunn K :=
  { t with timers := t.timers.setPersistentKeepalive persistentKeepalive }

def currentSession (t : Tunn K) : Option Session := t.sessions (slotOf t.current)

def setSession (t : Tunn K) (index : ℕ) (s : Session) : Tunn K :=
  { t with sessions := Function.update t.sessions (slotOf index) (some s) }

/-- Update the index of the currently used session, if needed. -/
def setCurrentSession (t : Tunn K) (newIdx : ℕ) : Tunn K :=
  if t.current = newIdx then t
  else if t.currentSession = none ∨
      t.timers.sessionTimers (slotOf t.current) ≤ t.timers.sessionTimers (slotOf newIdx) then
    { t with current := newIdx }
  else t

section Queue

def dropExpiredQueuedPackets (t : Tunn K) (now : ℕ) (w : World K N BYTES) :
    Call (ℕ × Tunn K × World K N BYTES) := do
  let (dropped, q, pool) ← t.packetQueue.dropExpired w.pool now
  return (dropped, { t with packetQueue := q }, { w with pool := pool })

def queuePacket (t : Tunn K) (packetType : MessageType) (packet : Bytes) (w : World K N BYTES) :
    Call (Tunn K × World K N BYTES) :=
  if maxPacketSize < packet.length then .ok (t, w)
  else do
    let (now, w) := w.now
    let (_, t, w) ← t.dropExpiredQueuedPackets now w
    let (q, pool) ← t.packetQueue.push w.pool packetType packet now
    return ({ t with packetQueue := q }, { w with pool := pool })

def requeuePacket (t : Tunn K) (handle : ℕ) (w : World K N BYTES) :
    Call (Tunn K × World K N BYTES) := do
  let (q, pool) ← t.packetQueue.requeue w.pool handle
  return ({ t with packetQueue := q }, { w with pool := pool })

def dequeuePacket (t : Tunn K) (w : World K N BYTES) :
    Call (Option ℕ × Tunn K × World K N BYTES) := do
  let (handle, q, pool) ← t.packetQueue.dequeue w.pool
  return (handle, { t with packetQueue := q }, { w with pool := pool })

def clearPacketQueue (t : Tunn K) (w : World K N BYTES) : Call (Tunn K × World K N BYTES) := do
  let (q, pool) ← t.packetQueue.clear w.pool
  return ({ t with packetQueue := q }, { w with pool := pool })

end Queue

/-- An expired tunnel that starts over starts with fresh timers. -/
def clearTimersIfExpired (t : Tunn K) (w : World K N BYTES) : Tunn K × World K N BYTES :=
  if t.handshake.isExpired then
    let (timers, w) := t.timers.clear w
    ({ t with timers := timers }, w)
  else (t, w)

def formatHandshakeInitiation (t : Tunn K) (dstLen : ℕ) (forceResend : Bool)
    (w : World K N BYTES) : Call (TunnResult × Tunn K × World K N BYTES) :=
  if t.handshake.isInProgress && !forceResend then .ok (.done, t, w)
  else do
    let (t, w) := t.clearTimersIfExpired w
    let startingNewHandshake := !t.handshake.isInProgress
    let (packet, h, w) ← t.handshake.formatHandshakeInitiation dstLen t.stamper w
    let t := { t with handshake := h }
    match packet with
    | .ok packet =>
      let t := if startingNewHandshake then t.timerTick .timeLastHandshakeStarted else t
      return (.writeToNetwork packet, (t.timerTick .timeLastPacketSent).countSent 0, w)
    | .error e => return (.err e, t, w)

/-- Encrypts with the current session, when there is one that still may send. -/
def sealWithCurrent (t : Tunn K) (packetType : MessageType) (src : Bytes) (dstLen : ℕ)
    (w : World K N BYTES) : Call (Option Bytes × Tunn K × World K N BYTES) :=
  match t.currentSession with
  | none => .ok (none, t, w)
  | some s => do
    let (packet, s, w) ← w.sealPacket s packetType src dstLen
    return (packet, t.setSession t.current s, w)

/-- The timers and counters after a packet with this plaintext has been sent. -/
def tickSent (t : Tunn K) (src : Bytes) : Tunn K :=
  let t := t.timerTick .timeLastPacketSent
  let t := if src ≠ [] then t.timerTick .timeLastDataPacketSent else t
  t.countSent src.length

def encapsulateWithType (t : Tunn K) (packetType : MessageType) (src : Bytes) (dstLen : ℕ)
    (w : World K N BYTES) : Call (TunnResult × Tunn K × World K N BYTES) := do
  let (written, t, w) ← t.sealWithCurrent packetType src dstLen w
  match written with
  | some packet => return (.writeToNetwork packet, t.tickSent src, w)
  | none =>
    let (t, w) ← t.queuePacket packetType src w
    t.formatHandshakeInitiation dstLen false w

def encapsulate (t : Tunn K) (src : Bytes) (dstLen : ℕ) (w : World K N BYTES) :
    Call (TunnResult × Tunn K × World K N BYTES) :=
  t.encapsulateWithType MessageType.data src dstLen w

def encapsulateRelay (t : Tunn K) (src : Bytes) (dstLen : ℕ) (w : World K N BYTES) :
    Call (TunnResult × Tunn K × World K N BYTES) :=
  t.encapsulateWithType MessageType.relayData src dstLen w

def flushQueuedPacket (t : Tunn K) (dstLen : ℕ) (w : World K N BYTES) :
    Call (TunnResult × Tunn K × World K N BYTES) := do
  let (handle, t, w) ← t.dequeuePacket w
  match handle with
  | none => return (.done, t, w)
  | some handle =>
    let (packetType, packet) ← w.pool.get handle
    let (written, t, w) ← t.sealWithCurrent packetType packet dstLen w
    match written with
    | some written =>
      let pool ← w.pool.free handle
      return (.writeToNetwork written, t.tickSent packet, { w with pool := pool })
    | none =>
      let (t, w) ← t.requeuePacket handle w
      return (.done, t, w)

def handleHandshakeInit (t : Tunn K) (p : HandshakeInit) (dstLen : ℕ) (w : World K N BYTES) :
    Call (Outcome TunnResult × Tunn K × World K N BYTES) := do
  let (r, h, w) ← t.handshake.receiveHandshakeInitialization p dstLen w
  let t := { t with handshake := h }
  match r with
  | .error e => return (.error e, t, w)
  | .ok (packet, session) =>
    let index := session.localIndex
    let t := t.setSession index session
    let t := (t.timerTick .timeLastPacketReceived).timerTick .timeLastPacketSent
    let t := t.countReceived.countSent 0
    let t := t.timerTickSessionEstablished false index
    return (.ok (.writeToNetwork packet), t.setCurrentSession index, w)

def handleHandshakeResponse (t : Tunn K) (p : HandshakeResponse) (dstLen : ℕ)
    (w : World K N BYTES) : Call (Outcome TunnResult × Tunn K × World K N BYTES) := do
  let (r, h, w) ← t.handshake.receiveHandshakeResponse p w
  let t := { t with handshake := h }
  match r with
  | .error e => return (.error e, t, w)
  | .ok session =>
    let (keepalive, session, w) ← w.sealData session [] dstLen
    match keepalive with
    | none => .error .unwrapFailed
    | some keepalive =>
      let lIdx := session.localIndex
      let index := lIdx % nSessions
      let t := t.setSession index session
      let t := t.timerTick .timeLastPacketReceived
      let t := t.countReceived.countSent 0
      let t := t.timerTickSessionEstablished true index
      return (.ok (.writeToNetwork keepalive), t.setCurrentSession lIdx, w)

def handleCookieReply (t : Tunn K) (p : CookieReply) : Call (Outcome TunnResult × Tunn K) := do
  let (r, h) ← t.handshake.receiveCookieReply p
  let t := { t with handshake := h }
  match r with
  | .error e => return (.error e, t)
  | .ok () =>
    let t := (t.timerTick .timeLastPacketReceived).countReceived
    return (.ok .done, t.timerTick .timeCookieReceived)

def decryptRawData (t : Tunn K) (packet : Data) (dstLen : ℕ) : Call (Outcome Bytes × Tunn K) :=
  let rIdx := packet.receiverIdx
  match t.sessions (slotOf rIdx) with
  | none => .ok (.error .noCurrentSession, t)
  | some session => do
    let (r, session) ← session.receivePacketData K packet dstLen
    let t := t.setSession rIdx session
    match r with
    | .error e => return (.error e, t)
    | .ok plaintext =>
      let t := t.setCurrentSession rIdx
      return (.ok plaintext, (t.timerTick .timeLastPacketReceived).countReceived)

/-- The length that the header of a decapsulated packet declares. -/
def declaredLen (packet : Bytes) : Option ℕ :=
  if IpPacket.version packet = 4 then
    if packet.length < IpPacket.ipv4MinHeaderSize then none
    else
      let headerLen := IpPacket.ipv4HeaderLen packet
      if headerLen < IpPacket.ipv4MinHeaderSize ∨ packet.length < headerLen then none
      else
        let totalLen := ofBe (slice packet 2 4)
        if totalLen < headerLen then none else some totalLen
  else if IpPacket.version packet = 6 then
    if packet.length < IpPacket.ipv6MinHeaderSize then none
    else some (ofBe (slice packet 4 6) + IpPacket.ipv6MinHeaderSize)
  else none

/-- Truncates an IP packet to the length its header declares. -/
def validateDecapsulatedPacket (t : Tunn K) (packet : Bytes) : TunnResult × Tunn K :=
  if packet = [] then (.done, t)
  else
    match IpPacket.srcAddress packet with
    | none => (.err .invalidPacket, t)
    | some addr =>
      match declaredLen packet with
      | none => (.err .invalidPacket, t)
      | some computedLen =>
        if packet.length < computedLen then (.err .invalidPacket, t)
        else
          let t := (t.timerTick .timeLastDataPacketReceived).countReceivedBytes computedLen
          match addr with
          | .v4 addr => (.writeToInterfaceV4 (packet.take computedLen) addr, t)
          | .v6 addr => (.writeToInterfaceV6 (packet.take computedLen) addr, t)

def handleData (t : Tunn K) (packet : Data) (dstLen : ℕ) :
    Call (Outcome TunnResult × Tunn K) := do
  let (r, t) ← t.decryptRawData packet dstLen
  match r with
  | .error e => return (.error e, t)
  | .ok plaintext =>
    let (r, t) := t.validateDecapsulatedPacket plaintext
    return (.ok r, t)

def handleVerifiedPacket (t : Tunn K) (packet : Packet) (dstLen : ℕ) (w : World K N BYTES) :
    Call (TunnResult × Tunn K × World K N BYTES) :=
  match packet with
  | .handshakeInit p => do
    let (r, t, w) ← t.handleHandshakeInit p dstLen w
    return (TunnResult.ofOutcome r, t, w)
  | .handshakeResponse p => do
    let (r, t, w) ← t.handleHandshakeResponse p dstLen w
    return (TunnResult.ofOutcome r, t, w)
  | .cookieReply p => do
    let (r, t) ← t.handleCookieReply p
    return (TunnResult.ofOutcome r, t, w)
  | .data p => do
    let (r, t) ← t.handleData p dstLen
    return (TunnResult.ofOutcome r, t, w)
  | .relayData _ => .ok (.err .invalidPacket, t, w)

def handleVerifiedRelayPacket (t : Tunn K) (packet : Packet) (dstLen : ℕ) :
    Call (Outcome Bytes × Tunn K) :=
  match packet with
  | .relayData p => t.decryptRawData p dstLen
  | _ => .ok (.error .invalidPacket, t)

/-- One slot of `update_session_timers`. -/
def expireSlot (timeNow : ℕ) (t : Tunn K) (i : Fin 3) : Call (Tunn K) :=
  let stamp := t.timers.sessionTimers i
  if timeNow < stamp then .error .durationUnderflow
  else if rejectAfterTime < timeNow - stamp then
    .ok { t with
      sessions := Function.update t.sessions i none
      timers := { t.timers with
        sessionTimers := Function.update t.timers.sessionTimers i timeNow } }
  else .ok t

def updateSessionTimers (t : Tunn K) (timeNow : ℕ) : Call (Tunn K) :=
  (List.finRange 3).foldlM (expireSlot timeNow) t

def clearAll (t : Tunn K) (w : World K N BYTES) : Call (Tunn K × World K N BYTES) := do
  let (t, w) ← t.clearPacketQueue w
  let (timers, w) := t.timers.clear w
  return ({ t with timers := timers }, w)

def expire (t : Tunn K) (w : World K N BYTES) : Call (TunnResult × Tunn K × World K N BYTES) := do
  let (t, w) ← { t with handshake := t.handshake.setExpired }.clearAll w
  return (.err .connectionExpired, t, w)

/-- Drops the cookie once it is too old. -/
def clearOldCookie (t : Tunn K) (now : ℕ) : Call (Tunn K) :=
  if t.handshake.hasCookie then do
    if ← elapsedAtLeast now (t.timers.timers .timeCookieReceived) cookieExpirationTime then
      return { t with handshake := t.handshake.clearCookie }
    return t
  else .ok t

def updateTimers (t : Tunn K) (dstLen : ℕ) (w : World K N BYTES) :
    Call (TunnResult × Tunn K × World K N BYTES) := do
  let (time, w) := w.now
  let now := time - t.timers.timeStarted
  let t := { t with timers := t.timers.set .timeCurrent now }
  let t ← t.updateSessionTimers now
  if t.handshake.isExpired then return (.err .connectionExpired, t, w)
  let t ← t.clearOldCookie now
  if ← elapsedAtLeast now (t.timers.timers .timeSessionEstablished) (rejectAfterTime * 3) then
    t.expire w
  else
    match t.handshake.timer with
    | some timeInitSent =>
      if ← elapsedAtLeast now (t.timers.timers .timeLastHandshakeStarted) rekeyAttemptTime then
        t.expire w
      else
        let (present, w) := w.now
        if rekeyTimeout ≤ present - timeInitSent then t.formatHandshakeInitiation dstLen true w
        else return (.done, t, w)
    | none =>
      let (handshakeInitiationRequired, keepaliveRequired, timers) ← t.timers.due now
      let t := { t with timers := timers }
      if handshakeInitiationRequired then t.formatHandshakeInitiation dstLen true w
      else if keepaliveRequired then t.encapsulate [] dstLen w
      else return (.done, t, w)

end Tunn

end Tendrilix.Noise
