import Tendrilix.Noise.CurrentSession

/-!
# The session ring

A session is stored in the slot of its local index modulo three. Every initiation uses up a local
index, answered or not, and the index wraps within eight bits, so two recent sessions may fall into
one slot. A history of the sessions established so far runs beside the tunnel; as long as no new
session falls into the slot of a recent one, the ring keeps the three most recent.
-/

namespace Tendrilix.Noise

variable {K : Crypto} {N BYTES : ℕ}

structure Session.Same (s s' : Session) : Prop where
  receivingIndex : s'.receivingIndex = s.receivingIndex
  receivingKey : s'.receivingKey = s.receivingKey
  sendingKey : s'.sendingKey = s.sendingKey

theorem Session.Same.refl (s : Session) : s.Same s := ⟨rfl, rfl, rfl⟩

theorem Session.Same.trans {s s' s'' : Session} (h : s.Same s') (h' : s'.Same s'') : s.Same s'' :=
  ⟨h'.receivingIndex.trans h.receivingIndex, h'.receivingKey.trans h.receivingKey,
    h'.sendingKey.trans h.sendingKey⟩

namespace Tunn

variable {t t' t'' : Tunn K} {w w' : World K N BYTES} {dstLen : ℕ} {r : TunnResult}
  {packetType : MessageType} {src : Bytes}

/-! ### What a call leaves in the slots -/

structure Keeps (t t' : Tunn K) : Prop where
  same : ∀ i, Option.Rel Session.Same (t.sessions i) (t'.sessions i)
  stamps_eq : t'.timers.sessionTimers = t.timers.sessionTimers

theorem Keeps.of_eq (hsessions : t'.sessions = t.sessions)
    (hstamps : t'.timers.sessionTimers = t.timers.sessionTimers) : t.Keeps t' where
  same := by
    intro i
    rw [hsessions]
    cases t.sessions i with
    | none => exact .none
    | some s => exact .some (.refl s)
  stamps_eq := hstamps

theorem Keeps.some_of_some (h : t.Keeps t') {i : Fin 3} {s : Session} (hs : t.sessions i = some s) :
    ∃ s', t'.sessions i = some s' ∧ s.Same s' := by
  have hi := h.same i
  rw [hs] at hi
  cases ht' : t'.sessions i with
  | none =>
    rw [ht'] at hi
    cases hi
  | some s' =>
    rw [ht'] at hi
    cases hi with
    | some hsame => exact ⟨s', rfl, hsame⟩

theorem Keeps.exists_of_some (h : t.Keeps t') {i : Fin 3} {s' : Session}
    (hs' : t'.sessions i = some s') : ∃ s, t.sessions i = some s ∧ s.Same s' := by
  have hi := h.same i
  rw [hs'] at hi
  cases hs : t.sessions i with
  | none =>
    rw [hs] at hi
    cases hi
  | some s =>
    rw [hs] at hi
    cases hi with
    | some hsame => exact ⟨s, rfl, hsame⟩

theorem Keeps.none_of_none (h : t.Keeps t') {i : Fin 3} (hs : t.sessions i = none) :
    t'.sessions i = none := by
  have hi := h.same i
  rw [hs] at hi
  cases ht' : t'.sessions i with
  | none => rfl
  | some s' =>
    rw [ht'] at hi
    cases hi

theorem Keeps.trans (h : t.Keeps t') (h' : t'.Keeps t'') : t.Keeps t'' := by
  refine ⟨fun i => ?_, h'.stamps_eq.trans h.stamps_eq⟩
  cases hs : t.sessions i with
  | none =>
    rw [h'.none_of_none (h.none_of_none hs)]
    exact .none
  | some s =>
    obtain ⟨s', hs', hsame⟩ := h.some_of_some hs
    obtain ⟨s'', hs'', hsame'⟩ := h'.some_of_some hs'
    rw [hs'']
    exact .some (hsame.trans hsame')

theorem Keeps.setSession {index : ℕ} {s s' : Session} (hs : t.sessions (slotOf index) = some s)
    (hsame : s.Same s') : t.Keeps (t.setSession index s') := by
  refine ⟨fun i => ?_, rfl⟩
  change Option.Rel Session.Same (t.sessions i)
    (Function.update t.sessions (slotOf index) (some s') i)
  by_cases hi : i = slotOf index
  · subst hi
    rw [hs, Function.update_self]
    exact .some hsame
  · rw [Function.update_of_ne hi]
    exact (Keeps.of_eq rfl rfl : t.Keeps t).same i

theorem tickSent_sessions (t : Tunn K) (src : Bytes) : (t.tickSent src).sessions = t.sessions := by
  rw [tickSent]
  split <;> rfl

theorem tickSent_keeps (t : Tunn K) (src : Bytes) : t.Keeps (t.tickSent src) := by
  apply Keeps.of_eq (tickSent_sessions t src)
  rw [tickSent]
  split <;> rfl

theorem clearTimersIfExpired_keeps (t : Tunn K) (w : World K N BYTES) :
    t.Keeps (t.clearTimersIfExpired w).1 := by
  rw [clearTimersIfExpired]
  split
  · exact .of_eq rfl rfl
  · exact .of_eq rfl rfl

theorem queuePacket_keeps (call : t.queuePacket packetType src w = .ok (t', w')) : t.Keeps t' := by
  rw [queuePacket] at call
  split at call
  · cases call
    exact .of_eq rfl rfl
  · obtain ⟨⟨dropped, t₁, w₁⟩, hdrop, call⟩ := bind_ok_iff.mp call
    obtain ⟨⟨q, pool⟩, -, call⟩ := bind_ok_iff.mp call
    obtain ⟨⟨n, q', pool'⟩, -, hdrop⟩ := bind_ok_iff.mp hdrop
    cases hdrop
    cases call
    exact .of_eq rfl rfl

theorem formatHandshakeInitiation_keeps {force : Bool}
    (call : t.formatHandshakeInitiation dstLen force w = .ok (r, t', w')) : t.Keeps t' := by
  have hclear := clearTimersIfExpired_keeps t w
  rw [formatHandshakeInitiation] at call
  split at call
  · cases call
    exact .of_eq rfl rfl
  obtain ⟨⟨packet, h, w₁⟩, -, call⟩ := bind_ok_iff.mp call
  apply hclear.trans
  cases packet with
  | error e =>
    cases call
    exact .of_eq rfl rfl
  | ok packet =>
    cases call
    dsimp only [countSent, timerTick]
    split
    · exact .of_eq rfl rfl
    · exact .of_eq rfl rfl

theorem expire_keeps (call : t.expire w = .ok (r, t', w')) : t.Keeps t' := by
  obtain ⟨⟨t₁, w₁⟩, hclear, call⟩ := bind_ok_iff.mp call
  obtain ⟨⟨t₂, w₂⟩, hqueue, hclear⟩ := bind_ok_iff.mp hclear
  obtain ⟨⟨q, pool⟩, -, hqueue⟩ := bind_ok_iff.mp hqueue
  cases hqueue
  cases hclear
  cases call
  exact .of_eq rfl rfl

theorem clearOldCookie_keeps {now : ℕ} (call : t.clearOldCookie now = .ok t') : t.Keeps t' := by
  obtain ⟨writeCookie, rfl⟩ := clearOldCookie_ok call
  exact .of_eq rfl rfl

theorem sealWithCurrent_keeps {written : Option Bytes}
    (call : t.sealWithCurrent packetType src dstLen w = .ok (written, t', w')) : t.Keeps t' := by
  rcases sealWithCurrent_ok call with ⟨-, rfl, -⟩ | ⟨packet, s, -, hs, -, rfl, -⟩
  · exact .of_eq rfl rfl
  · exact .setSession hs ⟨rfl, rfl, rfl⟩

theorem encapsulateWithType_keeps
    (call : t.encapsulateWithType packetType src dstLen w = .ok (r, t', w')) : t.Keeps t' := by
  obtain ⟨⟨written, t₁, w₁⟩, hseal, call⟩ := bind_ok_iff.mp call
  apply (sealWithCurrent_keeps hseal).trans
  cases written with
  | some packet =>
    cases call
    exact tickSent_keeps t₁ src
  | none =>
    obtain ⟨⟨t₂, w₂⟩, hqueue, call⟩ := bind_ok_iff.mp call
    exact (queuePacket_keeps hqueue).trans (formatHandshakeInitiation_keeps call)

theorem flushQueuedPacket_keeps (call : t.flushQueuedPacket dstLen w = .ok (r, t', w')) :
    t.Keeps t' := by
  obtain ⟨⟨handle, t₁, w₁⟩, hdequeue, call⟩ := bind_ok_iff.mp call
  obtain ⟨⟨handle', q, pool⟩, -, hdequeue⟩ := bind_ok_iff.mp hdequeue
  cases hdequeue
  have hq : t.Keeps { t with packetQueue := q } := .of_eq rfl rfl
  apply hq.trans
  cases handle with
  | none =>
    cases call
    exact .of_eq rfl rfl
  | some handle =>
    obtain ⟨⟨packetType, packet⟩, -, call⟩ := bind_ok_iff.mp call
    obtain ⟨⟨written, t₂, w₂⟩, hseal, call⟩ := bind_ok_iff.mp call
    apply (sealWithCurrent_keeps hseal).trans
    cases written with
    | some written =>
      obtain ⟨pool, -, call⟩ := bind_ok_iff.mp call
      cases call
      exact tickSent_keeps t₂ packet
    | none =>
      obtain ⟨⟨t₃, w₃⟩, hrequeue, call⟩ := bind_ok_iff.mp call
      obtain ⟨⟨q', pool'⟩, -, hrequeue⟩ := bind_ok_iff.mp hrequeue
      cases hrequeue
      cases call
      exact .of_eq rfl rfl

theorem decryptRawData_keeps {p : Data} {opened : Outcome Bytes}
    (call : t.decryptRawData p dstLen = .ok (opened, t')) : t.Keeps t' := by
  cases opened with
  | error e =>
    rw [decryptRawData_error call]
    exact .of_eq rfl rfl
  | ok plaintext =>
    obtain ⟨s, s', hs, hreceive, rfl⟩ := decryptRawData_ok call
    obtain ⟨-, -, -, v, cnt, -, rfl⟩ := Session.receivePacketData_ok hreceive
    have hset : t.Keeps (t.setSession p.receiverIdx
        { s with receivingKeyCounter := { v with receiveCnt := cnt } }) :=
      .setSession hs ⟨rfl, rfl, rfl⟩
    have hstamps := congrArg Timers.sessionTimers (decryptRawData_timers call)
    exact hset.trans (.of_eq (setCurrentSession_sessions _ _) hstamps)

theorem validateDecapsulatedPacket_sessions (t : Tunn K) (packet : Bytes) :
    (t.validateDecapsulatedPacket packet).2.sessions = t.sessions := by
  rw [validateDecapsulatedPacket]
  split
  · rfl
  split
  · rfl
  split
  · rfl
  split
  · rfl
  split <;> rfl

theorem validateDecapsulatedPacket_keeps (t : Tunn K) (packet : Bytes) :
    t.Keeps (t.validateDecapsulatedPacket packet).2 := by
  apply Keeps.of_eq (validateDecapsulatedPacket_sessions t packet)
  rw [validateDecapsulatedPacket]
  split
  · rfl
  split
  · rfl
  split
  · rfl
  split
  · rfl
  split <;> rfl

theorem updateTimers_keeps (call : t.updateTimers dstLen w = .ok (r, t', w')) :
    ∃ t₁, { t with timers := t.timers.set .timeCurrent (t.elapsed w) }.updateSessionTimers
        (t.elapsed w) = .ok t₁ ∧ t₁.Keeps t' := by
  obtain ⟨t₁, hexpire, haction⟩ := updateTimers_cases call
  refine ⟨t₁, hexpire, ?_⟩
  have hdue (t₂ : Tunn K) {t₃ : Timers} {handshake keepalive : Bool}
      (due : t₂.timers.due (t.elapsed w) = .ok (handshake, keepalive, t₃)) :
      t₂.Keeps { t₂ with timers := t₃ } := .of_eq rfl (Timers.due_sameClock due).sessionTimers
  cases haction with
  | expired => exact .of_eq rfl rfl
  | giveUp cookie call => exact (clearOldCookie_keeps cookie).trans (expire_keeps call)
  | retry cookie call =>
    exact (clearOldCookie_keeps cookie).trans (formatHandshakeInitiation_keeps call)
  | wait cookie => exact clearOldCookie_keeps cookie
  | rekey cookie due call =>
    have hkeeps := (clearOldCookie_keeps cookie).trans (hdue _ due)
    exact hkeeps.trans (formatHandshakeInitiation_keeps call)
  | keepalive cookie due call =>
    have hkeeps := (clearOldCookie_keeps cookie).trans (hdue _ due)
    exact hkeeps.trans (encapsulateWithType_keeps call)
  | idle cookie due => exact (clearOldCookie_keeps cookie).trans (hdue _ due)

theorem updateSessionTimers_slot {now : ℕ}
    (call : { t with timers := t.timers.set .timeCurrent now }.updateSessionTimers now = .ok t')
    (i : Fin 3) :
    rejectAfterTime < now - t.timers.sessionTimers i ∧ t'.sessions i = none ∨
      now - t.timers.sessionTimers i ≤ rejectAfterTime ∧ t'.sessions i = t.sessions i ∧
        t'.timers.sessionTimers i = t.timers.sessionTimers i := by
  rw [updateSessionTimers_ok call]
  dsimp only
  split
  · rename_i hold
    exact .inl ⟨hold, rfl⟩
  · rename_i hyoung
    exact .inr ⟨Nat.not_lt.mp hyoung, rfl, rfl⟩

/-! ### The history of sessions -/

/-- A session that has been established, and whether `update_session_timers` has dropped it. -/
structure Entry where
  index : ℕ
  receivingKey : Bytes
  sendingKey : Bytes
  expired : Bool := false
  deriving DecidableEq

def Entry.ofSession (s : Session) : Entry := ⟨s.receivingIndex, s.receivingKey, s.sendingKey, false⟩

def Entry.Present (e : Entry) (t : Tunn K) : Prop :=
  ∃ s, t.sessions (slotOf e.index) = some s ∧ s.receivingIndex = e.index ∧
    s.receivingKey = e.receivingKey ∧ s.sendingKey = e.sendingKey

instance (e : Entry) (t : Tunn K) : Decidable (e.Present t) :=
  decidable_of_iff
    ((t.sessions (slotOf e.index)).any fun s => s.receivingIndex = e.index ∧
      s.receivingKey = e.receivingKey ∧ s.sendingKey = e.sendingKey)
    (by simp [Entry.Present, Option.any_eq_true])

def newIndex (t : Tunn K) : Packet → ℕ
  | .handshakeResponse p => p.receiverIdx
  | _ => t.handshake.nextLocalIndex

/-- The local index of the session that a call establishes, if it completes a handshake. -/
def completes (s : Tunn K × World K N BYTES) : Op N BYTES → Option ℕ
  | .handleVerifiedPacket datagram dstLen =>
    match parseIncomingPacket datagram with
    | .error _ => none
    | .ok packet =>
      match s.1.handleVerifiedPacket packet dstLen s.2 with
      | .ok (.writeToNetwork _, _, _) => some (s.1.newIndex packet)
      | _ => none
  | _ => none

def Entry.age (t t' : Tunn K) (e : Entry) : Entry :=
  if (t.sessions (slotOf e.index)).isSome ∧ (t'.sessions (slotOf e.index)).isNone then
    { e with expired := true }
  else e

/-- The history after a call, most recent session first. -/
def record (s : Tunn K × World K N BYTES) (history : List Entry) (op : Op N BYTES) (t' : Tunn K) :
    List Entry :=
  match completes s op with
  | some index => ((t'.sessions (slotOf index)).map Entry.ofSession).toList ++ history
  | none =>
    match op with
    | .updateTimers _ => history.map (Entry.age s.1 t')
    | _ => history

abbrev Recorded (K : Crypto) (N BYTES : ℕ) := (Tunn K × World K N BYTES) × List Entry

def recordedStep (s : Recorded K N BYTES) (op : Op N BYTES) : Call (Reply × Recorded K N BYTES) := do
  let (reply, s') ← step s.1 op
  return (reply, s', record s.1 s.2 op s'.1)

/-- The most recent sessions that have not been dropped for their age are in their slots. -/
def Retained (t : Tunn K) (history : List Entry) : Prop :=
  ∀ e ∈ history.take nSessions, e.expired = false → e.Present t

instance (t : Tunn K) (history : List Entry) : Decidable (Retained t history) :=
  inferInstanceAs (Decidable (∀ e ∈ _, _ → _))

/-- A packet of the session that is current in `t` is still decrypted in `t'`. -/
def StillDecrypts (t t' : Tunn K) : Prop :=
  ∀ p dstLen plaintext t₁, slotOf p.receiverIdx = slotOf t.current →
    t.decryptRawData p dstLen = .ok (.ok plaintext, t₁) →
    ∃ t₂, t'.decryptRawData p dstLen = .ok (.ok plaintext, t₂)

/-- The slot of a new session is neither that of the current session nor that of one of the two
most recent ones. -/
def SlotFree (t : Tunn K) (history : List Entry) (index : ℕ) : Prop :=
  (∀ e ∈ history.take 2, e.expired = false → slotOf e.index ≠ slotOf index) ∧
    (t.currentSession.isSome → slotOf t.current ≠ slotOf index)

instance (t : Tunn K) (history : List Entry) (index : ℕ) : Decidable (SlotFree t history index) :=
  inferInstanceAs (Decidable (_ ∧ _))

/-- Every call of a run that completes a handshake finds the slot of its session free. -/
def slotsFree (s : Recorded K N BYTES) : List (Op N BYTES) → Bool
  | [] => true
  | op :: ops =>
    (completes s.1 op).all (fun index => SlotFree s.1.1 s.2 index) &&
      match recordedStep s op with
      | .ok (_, s') => slotsFree s' ops
      | .error _ => true

/-! ### One call -/

structure Stores (t : Tunn K) (index : ℕ) (session : Session) (t' : Tunn K) : Prop where
  index_eq : session.receivingIndex = index
  sessions_eq : t'.sessions = Function.update t.sessions (slotOf index) (some session)
  stamps_eq : t'.timers.sessionTimers =
    Function.update t.timers.sessionTimers (slotOf index) (t.timers.timers .timeCurrent)

theorem Stores.of_installed {handshake : Handshake K} {index : ℕ} {session : Session}
    (h : Installed { t with handshake := handshake } session t')
    (hindex : session.receivingIndex = index) : Stores t index session t' := by
  subst hindex
  exact ⟨rfl, h.sessions_eq, h.stamps_eq⟩

theorem validateDecapsulatedPacket_ne (t : Tunn K) (packet answer : Bytes) :
    (t.validateDecapsulatedPacket packet).1 ≠ .writeToNetwork answer := by
  rw [validateDecapsulatedPacket]
  split
  · exact fun h => by cases h
  split
  · exact fun h => by cases h
  split
  · exact fun h => by cases h
  split
  · exact fun h => by cases h
  split <;> exact fun h => by cases h

theorem handleVerifiedPacket_slots {packet : Packet}
    (call : t.handleVerifiedPacket packet dstLen w = .ok (r, t', w')) :
    (∃ answer s, r = .writeToNetwork answer ∧ Stores t (t.newIndex packet) s t') ∨
    (∀ answer, r ≠ .writeToNetwork answer) ∧ t.Keeps t' := by
  cases handleVerifiedPacket_cases call with
  | respond hreceive =>
    obtain ⟨_, _, _, keys, _, -, -, rfl, -, -⟩ := Handshake.receiveHandshakeInitialization_ok hreceive
    exact .inl ⟨_, _, rfl, Stores.of_installed (installResponder_installed _ _) rfl⟩
  | @conclude p _ _ _ h _ _ hreceive hseal =>
    obtain ⟨state, keys, hexpected, -, rfl, -, -⟩ := Handshake.receiveHandshakeResponse_ok hreceive
    rcases World.sealPacket_ok hseal with ⟨hnone, -⟩ | ⟨packet, -, -, rfl, -⟩
    · cases hnone
    · have hidx := (Handshake.expected_eq_some hexpected).1
      have hinst := installInitiator_installed { t with handshake := h }
        { Session.new state.localIndex p.senderIdx keys.receivingKey keys.sendingKey with
          sendingKeyCounter := 1 }
      exact .inl ⟨_, _, rfl, Stores.of_installed hinst hidx⟩
  | reject hdecrypt => exact .inr ⟨fun _ h => (by cases h), decryptRawData_keeps hdecrypt⟩
  | receive hdecrypt hvalid =>
    obtain ⟨rfl, rfl⟩ := Prod.ext_iff.mp hvalid
    exact .inr ⟨validateDecapsulatedPacket_ne _ _,
      (decryptRawData_keeps hdecrypt).trans (validateDecapsulatedPacket_keeps _ _)⟩
  | refuse | misdirected | refuseCookie | cookie | foreign =>
    exact .inr ⟨fun _ h => (by cases h), .of_eq rfl rfl⟩

/-- What one call does to the slots: it completes a handshake and stores the session, or it drops
sessions for their age, or it keeps them all. -/
theorem step_slots {s s' : Tunn K × World K N BYTES} {op : Op N BYTES} {reply : Reply}
    (h : step s op = .ok (reply, s')) :
    (∃ index session, completes s op = some index ∧ Stores s.1 index session s'.1) ∨
    completes s op = none ∧ ((∃ dstLen, op = .updateTimers dstLen ∧ ∃ t₁ : Tunn K,
        { s.1 with timers := s.1.timers.set .timeCurrent (s.1.elapsed s.2) }.updateSessionTimers
          (s.1.elapsed s.2) = .ok t₁ ∧ t₁.Keeps s'.1) ∨
      (∀ dstLen, op ≠ .updateTimers dstLen) ∧ s.1.Keeps s'.1) := by
  cases op with
  | handleVerifiedPacket datagram dstLen =>
    simp only [step] at h
    cases hparse : parseIncomingPacket datagram with
    | error e =>
      simp only [hparse] at h
      cases h
      exact .inr ⟨by simp [completes, hparse], .inr ⟨fun _ h => (by cases h), .of_eq rfl rfl⟩⟩
    | ok packet =>
      simp only [hparse] at h
      obtain ⟨⟨r, t₁, w₁⟩, hcall, h⟩ := bind_ok_iff.mp h
      cases h
      rcases handleVerifiedPacket_slots hcall with
        ⟨answer, session, rfl, hstores⟩ | ⟨hne, hkeeps⟩
      · exact .inl ⟨_, session, by simp [completes, hparse, hcall], hstores⟩
      · refine .inr ⟨?_, .inr ⟨fun _ h => (by cases h), hkeeps⟩⟩
        simp only [completes, hparse, hcall]
        cases r with
        | writeToNetwork answer => exact absurd rfl (hne answer)
        | _ => rfl
  | handleVerifiedRelayPacket datagram dstLen =>
    refine .inr ⟨rfl, .inr ⟨fun _ h => (by cases h), ?_⟩⟩
    simp only [step] at h
    split at h
    · cases h
      exact .of_eq rfl rfl
    · rename_i packet hparse
      obtain ⟨⟨r, t₁⟩, hcall, h⟩ := bind_ok_iff.mp h
      cases h
      cases packet with
      | relayData p => exact decryptRawData_keeps hcall
      | _ =>
        cases hcall
        exact .of_eq rfl rfl
  | updateTimers dstLen =>
    obtain ⟨⟨r, t₁, w₁⟩, hcall, h⟩ := bind_ok_iff.mp h
    cases h
    exact .inr ⟨rfl, .inl ⟨dstLen, rfl, updateTimers_keeps hcall⟩⟩
  | encapsulate src dstLen =>
    obtain ⟨⟨r, t₁, w₁⟩, hcall, h⟩ := bind_ok_iff.mp h
    cases h
    exact .inr ⟨rfl, .inr ⟨fun _ h => (by cases h), encapsulateWithType_keeps hcall⟩⟩
  | encapsulateRelay src dstLen =>
    obtain ⟨⟨r, t₁, w₁⟩, hcall, h⟩ := bind_ok_iff.mp h
    cases h
    exact .inr ⟨rfl, .inr ⟨fun _ h => (by cases h), encapsulateWithType_keeps hcall⟩⟩
  | flushQueuedPacket dstLen =>
    obtain ⟨⟨r, t₁, w₁⟩, hcall, h⟩ := bind_ok_iff.mp h
    cases h
    exact .inr ⟨rfl, .inr ⟨fun _ h => (by cases h), flushQueuedPacket_keeps hcall⟩⟩
  | formatHandshakeInitiation dstLen forceResend =>
    obtain ⟨⟨r, t₁, w₁⟩, hcall, h⟩ := bind_ok_iff.mp h
    cases h
    exact .inr ⟨rfl, .inr ⟨fun _ h => (by cases h), formatHandshakeInitiation_keeps hcall⟩⟩
  | dropExpiredQueuedPackets =>
    obtain ⟨⟨dropped, t₁, w₁⟩, hcall, h⟩ := bind_ok_iff.mp h
    obtain ⟨⟨n, q, pool⟩, -, hcall⟩ := bind_ok_iff.mp hcall
    cases hcall
    cases h
    exact .inr ⟨rfl, .inr ⟨fun _ h => (by cases h), .of_eq rfl rfl⟩⟩
  | clearPacketQueue =>
    obtain ⟨⟨t₁, w₁⟩, hcall, h⟩ := bind_ok_iff.mp h
    obtain ⟨⟨q, pool⟩, -, hcall⟩ := bind_ok_iff.mp hcall
    cases hcall
    cases h
    exact .inr ⟨rfl, .inr ⟨fun _ h => (by cases h), .of_eq rfl rfl⟩⟩
  | setPersistentKeepalive keepalive =>
    cases h
    exact .inr ⟨rfl, .inr ⟨fun _ h => (by cases h), .of_eq rfl rfl⟩⟩
  | sharePool pool =>
    cases h
    exact .inr ⟨rfl, .inr ⟨fun _ h => (by cases h), .of_eq rfl rfl⟩⟩

variable {history : List Entry}

theorem Entry.Present.keeps {e : Entry} (h : e.Present t) (hkeeps : t.Keeps t') : e.Present t' := by
  obtain ⟨s, hs, hidx, hr, hk⟩ := h
  obtain ⟨s', hs', hsame⟩ := hkeeps.some_of_some hs
  exact ⟨s', hs', hsame.receivingIndex.trans hidx, hsame.receivingKey.trans hr,
    hsame.sendingKey.trans hk⟩

theorem Retained.keeps (h : Retained t history) (hkeeps : t.Keeps t') : Retained t' history :=
  fun e he hlive => (h e he hlive).keeps hkeeps

theorem Retained.age {t₁ : Tunn K} (h : Retained t history) (hkeeps : t₁.Keeps t')
    (hdrop : ∀ i, t₁.sessions i = none ∨ t₁.sessions i = t.sessions i) :
    Retained t' (history.map (Entry.age t t')) := by
  intro e' he' hlive
  rw [← List.map_take] at he'
  obtain ⟨e, he, rfl⟩ := List.mem_map.mp he'
  rw [Entry.age] at hlive ⊢
  split at hlive
  · cases hlive
  · rename_i hstay
    rw [if_neg hstay]
    obtain ⟨s, hs, hkeys⟩ := h e he hlive
    rcases hdrop (slotOf e.index) with hnone | hsome
    · refine absurd ⟨?_, ?_⟩ hstay
      · simp [hs]
      · simp [hkeeps.none_of_none hnone]
    · exact Entry.Present.keeps ⟨s, hsome.trans hs, hkeys⟩ hkeeps

theorem Retained.install {index : ℕ} {s : Session} (h : Retained t history)
    (hfree : SlotFree t history index) (hidx : s.receivingIndex = index)
    (hsessions : t'.sessions = Function.update t.sessions (slotOf index) (some s)) :
    Retained t' (.ofSession s :: history) := by
  intro e he hlive
  rw [show nSessions = 2 + 1 from rfl, List.take_succ_cons] at he
  rcases List.mem_cons.mp he with rfl | he
  · refine ⟨s, ?_, rfl, rfl, rfl⟩
    change t'.sessions (slotOf s.receivingIndex) = some s
    rw [hsessions, hidx, Function.update_self]
  · have hmem : e ∈ history.take nSessions := (List.take_prefix_take_left (by decide)).subset he
    obtain ⟨s', hs', hkeys⟩ := h e hmem hlive
    refine ⟨s', ?_, hkeys⟩
    rw [hsessions, Function.update_of_ne (hfree.1 e he hlive), hs']

theorem stillDecrypts_install {index : ℕ} {s : Session} (hfree : SlotFree t history index)
    (hsessions : t'.sessions = Function.update t.sessions (slotOf index) (some s)) :
    StillDecrypts t t' := by
  intro p dstLen plaintext t₁ hslot call
  obtain ⟨c, c', hc, hreceive, -⟩ := decryptRawData_ok call
  have hcurrent : t.currentSession.isSome := by
    rw [currentSession, ← hslot, hc]
    rfl
  have hc' : t'.sessions (slotOf p.receiverIdx) = some c := by
    rw [hsessions, hslot, Function.update_of_ne (hfree.2 hcurrent), ← hslot, hc]
  rw [decryptRawData]
  simp only [hc', hreceive, ok_bind, pure_eq_ok]
  exact ⟨_, rfl⟩

/-! ### Whole runs -/

theorem recordedStep_ok {s s' : Recorded K N BYTES} {op : Op N BYTES} {reply : Reply}
    (h : recordedStep s op = .ok (reply, s')) :
    step s.1 op = .ok (reply, s'.1) ∧ s'.2 = record s.1 s.2 op s'.1.1 := by
  obtain ⟨⟨reply', s₁⟩, hstep, h⟩ := bind_ok_iff.mp h
  cases h
  exact ⟨hstep, rfl⟩

theorem record_of_completes {s : Tunn K × World K N BYTES} {op : Op N BYTES} {index : ℕ}
    {session : Session} (h : completes s op = some index)
    (hs : t'.sessions (slotOf index) = some session) :
    record s history op t' = .ofSession session :: history := by
  unfold record
  simp only [h, hs, Option.map_some, Option.toList_some, List.singleton_append]

theorem record_of_other {s : Tunn K × World K N BYTES} {op : Op N BYTES}
    (h : completes s op = none) (hop : ∀ dstLen, op ≠ .updateTimers dstLen) :
    record s history op t' = history := by
  unfold record
  simp only [h]

theorem recordedStep_retained {s s' : Recorded K N BYTES} {op : Op N BYTES} {reply : Reply}
    (h : recordedStep s op = .ok (reply, s'))
    (hfree : ∀ index, completes s.1 op = some index → SlotFree s.1.1 s.2 index)
    (hs : Retained s.1.1 s.2) :
    Retained s'.1.1 s'.2 ∧ ((completes s.1 op).isSome → StillDecrypts s.1.1 s'.1.1) := by
  obtain ⟨hstep, hrecord⟩ := recordedStep_ok h
  rw [hrecord]
  rcases step_slots hstep with
    ⟨index, session, hcompletes, hidx, hsessions, -⟩ | ⟨hcompletes,
      ⟨dstLen, rfl, t₁, hexpire, hkeeps⟩ | ⟨hop, hkeeps⟩⟩
  · have hslot : s'.1.1.sessions (slotOf index) = some session := by
      rw [hsessions, Function.update_self]
    rw [record_of_completes hcompletes hslot]
    have hslotFree := hfree index hcompletes
    exact ⟨hs.install hslotFree hidx hsessions, fun _ => stillDecrypts_install hslotFree hsessions⟩
  · refine ⟨hs.age hkeeps fun i => ?_, (nomatch ·)⟩
    exact (updateSessionTimers_slot hexpire i).imp And.right fun hyoung => hyoung.2.1
  · rw [record_of_other hcompletes hop, hcompletes]
    exact ⟨hs.keeps hkeeps, (nomatch ·)⟩

theorem slotsFree_cons {s s' : Recorded K N BYTES} {op : Op N BYTES} {ops : List (Op N BYTES)}
    {reply : Reply} (h : recordedStep s op = .ok (reply, s')) (hfree : slotsFree s (op :: ops) = true) :
    (∀ index, completes s.1 op = some index → SlotFree s.1.1 s.2 index) ∧ slotsFree s' ops = true := by
  rw [slotsFree, Bool.and_eq_true] at hfree
  refine ⟨fun index hindex => ?_, ?_⟩
  · have hall := hfree.1
    rw [hindex] at hall
    simpa using hall
  · have hrest := hfree.2
    rwa [h] at hrest

theorem run_retained {s s' : Recorded K N BYTES} {ops : List (Op N BYTES)} {replies : List Reply}
    (hrun : Machine.run recordedStep s ops = .ok (replies, s')) (hfree : slotsFree s ops = true)
    (hs : Retained s.1.1 s.2) :
    Retained s'.1.1 s'.2 ∧ ∀ before op rest replies₁ s₁ reply s₂, ops = before ++ op :: rest →
      Machine.run recordedStep s before = .ok (replies₁, s₁) →
      recordedStep s₁ op = .ok (reply, s₂) → (completes s₁.1 op).isSome →
      StillDecrypts s₁.1.1 s₂.1.1 := by
  induction ops generalizing s replies with
  | nil =>
    cases hrun
    refine ⟨hs, fun before op rest replies₁ s₁ reply s₂ hops => ?_⟩
    simp at hops
  | cons op ops ih =>
    obtain ⟨reply, s₁, replies', hstep, hrest, -⟩ := Machine.run_cons_ok.mp hrun
    obtain ⟨hslot, hfree'⟩ := slotsFree_cons hstep hfree
    obtain ⟨hs₁, hdecrypts⟩ := recordedStep_retained hstep hslot hs
    obtain ⟨hs', hlater⟩ := ih hrest hfree' hs₁
    refine ⟨hs', fun before op' rest replies₁ s₂ reply' s₃ hops hbefore hstep' hcompletes => ?_⟩
    cases before with
    | nil =>
      cases hops
      cases hbefore
      cases hstep.symm.trans hstep'
      exact hdecrypts hcompletes
    | cons first before =>
      cases hops
      obtain ⟨reply₁, s₄, replies₂, hfirst, hbefore, -⟩ := Machine.run_cons_ok.mp hbefore
      cases hstep.symm.trans hfirst
      exact hlater before op' rest replies₂ s₂ reply' s₃ rfl hbefore hstep' hcompletes

/-- In every run in which no new session falls into the slot of the current session or of one of the
two most recent ones, the three most recent sessions are kept until they are too old, and packets
in flight under the current session survive every handshake. -/
theorem run_keeps_recent_sessions {staticPrivate : K.Secret} {peerStaticPublic : Bytes}
    {keepalive : Option ℕ} {index : ℕ} {stamper : TimeStamper} {clock : ℕ → ℕ}
    {secrets : ℕ → K.Secret} {pool : PacketPool N BYTES} {ops : List (Op N BYTES)}
    {replies : List Reply} {s' : Recorded K N BYTES}
    (hrun : Machine.run recordedStep
      (Tunn.new staticPrivate peerStaticPublic keepalive index stamper
        (World.start clock secrets pool), []) ops = .ok (replies, s'))
    (hfree : slotsFree (Tunn.new staticPrivate peerStaticPublic keepalive index stamper
        (World.start clock secrets pool), []) ops = true) :
    Retained s'.1.1 s'.2 ∧ ∀ before op rest replies₁ s₁ reply s₂, ops = before ++ op :: rest →
      Machine.run recordedStep (Tunn.new staticPrivate peerStaticPublic keepalive index stamper
        (World.start clock secrets pool), []) before = .ok (replies₁, s₁) →
      recordedStep s₁ op = .ok (reply, s₂) → (completes s₁.1 op).isSome →
      StillDecrypts s₁.1.1 s₂.1.1 := by
  apply run_retained hrun hfree
  intro e he
  cases he

end Tunn

/-! ### Two sessions in one slot

The responder sends two initiations that are never answered between two that it answers. -/

namespace Sample

def inFlight : Bytes :=
  lastSent rekeyInitiator [.formatHandshakeInitiation maxPacketSize false,
    .handleVerifiedPacket firstResponse maxPacketSize, .encapsulate [1, 2, 3] maxPacketSize]

def beforeRekey : List (Tunn.Op 8 8192) :=
  [.handleVerifiedPacket firstInitiation maxPacketSize,
    .formatHandshakeInitiation maxPacketSize true, .formatHandshakeInitiation maxPacketSize true]

end Sample

namespace Tunn

theorem run_keeps_recent_sessions_rekey :
    ∃ replies s', Machine.run recordedStep (Sample.rekeyResponder, [])
        [.handleVerifiedPacket Sample.firstInitiation maxPacketSize,
          .handleVerifiedPacket Sample.secondInitiation maxPacketSize] = .ok (replies, s') ∧
      s'.2.length = 2 ∧ Retained s'.1.1 s'.2 := by
  have hfree : slotsFree (Sample.rekeyResponder, [])
      [.handleVerifiedPacket Sample.firstInitiation maxPacketSize,
        .handleVerifiedPacket Sample.secondInitiation maxPacketSize] = true := by decide +kernel
  have hcheck : okAnd (fun (_, s') => decide (s'.2.length = 2))
      (Machine.run recordedStep (Sample.rekeyResponder, [])
        [.handleVerifiedPacket Sample.firstInitiation maxPacketSize,
          .handleVerifiedPacket Sample.secondInitiation maxPacketSize]) = true := by decide +kernel
  obtain ⟨⟨replies, s'⟩, hrun, hlen⟩ := exists_of_okAnd hcheck
  exact ⟨replies, s', hrun, of_decide_eq_true hlen, (run_keeps_recent_sessions hrun hfree).1⟩

/-- The second of two sessions takes the place of the first, which is current and not expired, and
a packet in flight under the first is lost. -/
theorem ring_loses_recent_session :
    ∃ replies s₁ reply s₂ p plaintext t₁ e,
      Machine.run recordedStep (Sample.rekeyResponder, []) Sample.beforeRekey = .ok (replies, s₁) ∧
      recordedStep s₁ (.handleVerifiedPacket Sample.secondInitiation maxPacketSize) =
        .ok (reply, s₂) ∧
      s₂.2.length = 2 ∧ ¬Retained s₂.1.1 s₂.2 ∧
      parseIncomingPacket Sample.inFlight = .ok (.data p) ∧
      slotOf p.receiverIdx = slotOf s₁.1.1.current ∧
      s₁.1.1.decryptRawData p maxPacketSize = .ok (.ok plaintext, t₁) ∧
      s₂.1.1.decryptRawData p maxPacketSize = .ok (.error e, s₂.1.1) := by
  have hparse : parseIncomingPacket Sample.inFlight = .ok (.data (.parse Sample.inFlight)) := by
    decide +kernel
  have hcheck : okAnd (fun (_, s₁) => okAnd (fun (_, s₂) => decide (s₂.2.length = 2 ∧
        ¬Retained s₂.1.1 s₂.2 ∧
        slotOf (Data.parse Sample.inFlight).receiverIdx = slotOf s₁.1.1.current) &&
          okAnd (fun (r, _) => r.isOk)
            (s₁.1.1.decryptRawData (.parse Sample.inFlight) maxPacketSize) &&
          okAnd (fun (r, _) => !r.isOk)
            (s₂.1.1.decryptRawData (.parse Sample.inFlight) maxPacketSize))
        (recordedStep s₁ (.handleVerifiedPacket Sample.secondInitiation maxPacketSize)))
      (Machine.run recordedStep (Sample.rekeyResponder, []) Sample.beforeRekey) = true := by
    decide +kernel
  obtain ⟨⟨replies, s₁⟩, hrun, hcheck⟩ := exists_of_okAnd hcheck
  obtain ⟨⟨reply, s₂⟩, hstep, hcheck⟩ := exists_of_okAnd hcheck
  rw [Bool.and_eq_true, Bool.and_eq_true] at hcheck
  obtain ⟨⟨hfacts, hbefore⟩, hafter⟩ := hcheck
  obtain ⟨hlen, hlost, hslot⟩ := of_decide_eq_true hfacts
  obtain ⟨⟨opened, t₁⟩, hopens, hok⟩ := exists_of_okAnd hbefore
  obtain ⟨⟨refused, t₂⟩, hrefuses, herr⟩ := exists_of_okAnd hafter
  cases opened with
  | error e => cases hok
  | ok plaintext =>
    cases refused with
    | ok plaintext => cases herr
    | error e =>
      rw [decryptRawData_error hrefuses] at hrefuses
      exact ⟨replies, s₁, reply, s₂, _, plaintext, t₁, e, hrun, hstep, hlen, hlost, hparse, hslot,
        hopens, hrefuses⟩

end Tunn

end Tendrilix.Noise
