import Tendrilix.Noise.World

/-!
# Timers

Times are durations since the start of the tunnel, in nanoseconds. Subtracting durations panics
when the result would be negative.
-/

namespace Tendrilix.Noise

variable {K : Crypto} {N BYTES : ℕ}

def fromSecs (n : ℕ) : ℕ := n * 1000000000

def rekeyAfterTime : ℕ := fromSecs 120

def rejectAfterTime : ℕ := fromSecs 180

def rekeyAttemptTime : ℕ := fromSecs 90

def rekeyTimeout : ℕ := fromSecs 5

def keepaliveTimeout : ℕ := fromSecs 10

def cookieExpirationTime : ℕ := fromSecs 120

def nSessions : ℕ := 3

/-- The slot of a session index. -/
def slotOf (index : ℕ) : Fin 3 := ⟨index % nSessions, Nat.mod_lt _ (by decide)⟩

inductive TimerName
  | timeCurrent
  | timeSessionEstablished
  | timeLastHandshakeStarted
  | timeLastPacketReceived
  | timeLastPacketSent
  | timeLastDataPacketReceived
  | timeLastDataPacketSent
  | timeCookieReceived
  | timePersistentKeepalive
  deriving DecidableEq, Repr

structure Timers where
  isInitiator : Bool := false
  timeStarted : ℕ
  timers : TimerName → ℕ := fun _ => 0
  sessionTimers : Fin 3 → ℕ := fun _ => 0
  wantKeepalive : Bool := false
  wantHandshake : Bool := false
  sendInitialKeepalive : Bool
  persistentKeepalive : ℕ

/-- `now - t >= limit`. -/
def elapsedAtLeast (now t limit : ℕ) : Call Bool :=
  if t ≤ now then .ok (limit ≤ now - t) else .error .durationUnderflow

/-- `cond && now - t >= limit`, which does not subtract unless `cond` holds. -/
def elapsedWhen (cond : Bool) (now t limit : ℕ) : Call Bool :=
  if cond then elapsedAtLeast now t limit else .ok false

namespace Timers

def new (persistentKeepalive : Option ℕ) (w : World K N BYTES) : Timers × World K N BYTES :=
  let persistentKeepalive := persistentKeepalive.getD 0
  let (now, w) := w.now
  ({ timeStarted := now
     sendInitialKeepalive := 0 < persistentKeepalive
     persistentKeepalive := persistentKeepalive }, w)

def set (t : Timers) (name : TimerName) (time : ℕ) : Timers :=
  { t with timers := Function.update t.timers name time }

/-- Every timer is moved to the present, so that the reference time stays the same. -/
def clear (t : Timers) (w : World K N BYTES) : Timers × World K N BYTES :=
  let (time, w) := w.now
  let now := time - t.timeStarted
  ({ t with
     timers := fun _ => now
     wantHandshake := false
     wantKeepalive := false
     sendInitialKeepalive := 0 < t.persistentKeepalive }, w)

def tick (t : Timers) (name : TimerName) : Timers :=
  let t :=
    match name with
    | .timeLastPacketReceived => { t with wantKeepalive := true, wantHandshake := false }
    | .timeLastPacketSent => { t with wantHandshake := true, wantKeepalive := false }
    | _ => t
  t.set name (t.timers .timeCurrent)

def tickSessionEstablished (t : Timers) (isInitiator : Bool) (sessionIdx : ℕ) : Timers :=
  let t := t.tick .timeSessionEstablished
  { t with
    sessionTimers := Function.update t.sessionTimers (slotOf sessionIdx) (t.timers .timeCurrent)
    isInitiator := isInitiator }

def setPersistentKeepalive (t : Timers) (persistentKeepalive : Option ℕ) : Timers :=
  let persistentKeepalive := persistentKeepalive.getD 0
  { t with
    persistentKeepalive := persistentKeepalive
    sendInitialKeepalive := 0 < persistentKeepalive }

/-- As the initiator, rekey when the session has grown old under traffic. -/
def rekeyDue (t : Timers) (now : ℕ) : Call Bool :=
  if t.isInitiator then do
    let established := t.timers .timeSessionEstablished
    let onSend ← elapsedWhen (established < t.timers .timeLastDataPacketSent) now established
      rekeyAfterTime
    let onReceive ← elapsedWhen (established < t.timers .timeLastDataPacketReceived) now established
      (rejectAfterTime - keepaliveTimeout - rekeyTimeout)
    return onSend || onReceive
  else .ok false

/-- Data was sent and nothing came back for too long. -/
def replyOverdue (t : Timers) (now : ℕ) : Call (Bool × Timers) := do
  let received := t.timers .timeLastPacketReceived
  if ← elapsedWhen (received < t.timers .timeLastDataPacketSent) now received
      (keepaliveTimeout + rekeyTimeout) then
    return (t.wantHandshake, { t with wantHandshake := false })
  return (false, t)

/-- Data was received and nothing was sent back for too long. -/
def keepaliveDue (t : Timers) (now : ℕ) : Call (Bool × Timers) := do
  let sent := t.timers .timeLastPacketSent
  if ← elapsedWhen (sent < t.timers .timeLastDataPacketReceived) now sent keepaliveTimeout then
    return (t.wantKeepalive, { t with wantKeepalive := false })
  return (false, t)

def persistentKeepaliveDue (t : Timers) (now : ℕ) : Call (Bool × Timers) :=
  if 0 < t.persistentKeepalive then
    if t.sendInitialKeepalive then
      .ok (true, { t with sendInitialKeepalive := false }.tick .timePersistentKeepalive)
    else do
      if ← elapsedAtLeast now (t.timers .timePersistentKeepalive)
          (fromSecs t.persistentKeepalive) then
        return (true, t.tick .timePersistentKeepalive)
      return (false, t)
  else .ok (false, t)

/-- What the timers ask for when no initiation is awaiting its response: a new handshake, else
perhaps a keepalive. -/
def due (t : Timers) (now : ℕ) : Call (Bool × Bool × Timers) := do
  let rekey ← t.rekeyDue now
  let (overdue, t) ← t.replyOverdue now
  if rekey || overdue then return (true, false, t)
  let (idle, t) ← t.keepaliveDue now
  let (persistent, t) ← t.persistentKeepaliveDue now
  return (false, idle || persistent, t)

end Timers

end Tendrilix.Noise
