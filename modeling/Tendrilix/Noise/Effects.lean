import Tendrilix.Noise.HandshakeSpec
import Tendrilix.Noise.Tunn

/-!
# What a call can do to a tunnel

Every call on a tunnel is a sequence of effects: a timer moves, a packet is sealed or opened, a
handshake message is formatted or answered. An effect that authenticates a packet is labelled with
it. Invariants of whole runs are proved once for each effect.
-/

namespace Tendrilix.Noise

variable {K : Crypto} {N BYTES : ℕ}

namespace Tunn

def installResponder (t : Tunn K) (s : Session) : Tunn K :=
  let t := t.setSession s.localIndex s
  let t := (t.timerTick .timeLastPacketReceived).timerTick .timeLastPacketSent
  let t := t.countReceived.countSent 0
  (t.timerTickSessionEstablished false s.localIndex).setCurrentSession s.localIndex

def installInitiator (t : Tunn K) (s : Session) : Tunn K :=
  let t := t.setSession (s.localIndex % nSessions) s
  let t := t.timerTick .timeLastPacketReceived
  let t := t.countReceived.countSent 0
  (t.timerTickSessionEstablished true (s.localIndex % nSessions)).setCurrentSession s.localIndex

end Tunn

structure Timers.SameClock (t t' : Timers) : Prop where
  timeStarted : t'.timeStarted = t.timeStarted
  sessionTimers : t'.sessionTimers = t.sessionTimers
  stamped : ∀ name, t'.timers name = t.timers name ∨ t'.timers name = t.timers .timeCurrent

inductive Effect : Tunn K → World K N BYTES → Option Packet → Tunn K → World K N BYTES → Prop
  | timers {t : Tunn K} {w : World K N BYTES} {timers : Timers}
      (same : t.timers.SameClock timers) : Effect t w none { t with timers := timers } w
  | count (t : Tunn K) (w : World K N BYTES) (traffic : Traffic) :
      Effect t w none { t with traffic := traffic } w
  | read (t : Tunn K) (w : World K N BYTES) : Effect t w none t w.now.2
  | observe (t : Tunn K) (w : World K N BYTES) :
      Effect t w none
        { t with timers := t.timers.set .timeCurrent (w.now.1 - t.timers.timeStarted) } w.now.2
  | clearTimers (t : Tunn K) (w : World K N BYTES) :
      Effect t w none { t with timers := (t.timers.clear w).1 } (t.timers.clear w).2
  | expireSessions {t t' : Tunn K} (w : World K N BYTES)
      (call : t.updateSessionTimers (t.timers.timers .timeCurrent) = .ok t') : Effect t w none t' w
  | queue (t : Tunn K) (w : World K N BYTES) (q : PacketQueue) (pool : PacketPool N BYTES) :
      Effect t w none { t with packetQueue := q } { w with pool := pool }
  | encrypt {t t' : Tunn K} {w w' : World K N BYTES} {packetType : MessageType} {src : Bytes}
      {dstLen : ℕ} {r : Option Bytes}
      (call : t.sealWithCurrent packetType src dstLen w = .ok (r, t', w')) : Effect t w none t' w'
  | cookies (t : Tunn K) (w : World K N BYTES) (writeCookie : Option Bytes) :
      Effect t w none { t with handshake := { t.handshake with
        cookies := { t.handshake.cookies with writeCookie := writeCookie } } } w
  | expireHandshake (t : Tunn K) (w : World K N BYTES) :
      Effect t w none { t with handshake := t.handshake.setExpired } w
  | initiate {t : Tunn K} {w w' : World K N BYTES} {dstLen : ℕ} {packet : Bytes} {h : Handshake K}
      (call : t.handshake.formatHandshakeInitiation dstLen t.stamper w = .ok (.ok packet, h, w')) :
      Effect t w none { t with handshake := h } w'
  | refuse {t : Tunn K} {w w' : World K N BYTES} {p : HandshakeInit} {dstLen : ℕ}
      {e : WireGuardError} {h : Handshake K}
      (call : t.handshake.receiveHandshakeInitialization p dstLen w = .ok (.error e, h, w')) :
      Effect t w none { t with handshake := h } w'
  | respond {t : Tunn K} {w w' : World K N BYTES} {p : HandshakeInit} {dstLen : ℕ}
      {packet : Bytes} {s : Session} {h : Handshake K}
      (call : t.handshake.receiveHandshakeInitialization p dstLen w =
        .ok (.ok (packet, s), h, w')) :
      Effect t w (some (.handshakeInit p)) ({ t with handshake := h }.installResponder s) w'
  | conclude {t : Tunn K} {w w' w'' : World K N BYTES} {p : HandshakeResponse} {dstLen : ℕ}
      {keepalive : Bytes} {s s' : Session} {h : Handshake K}
      (call : t.handshake.receiveHandshakeResponse p w = .ok (.ok s, h, w'))
      (sent : w'.sealPacket s MessageType.data [] dstLen = .ok (some keepalive, s', w'')) :
      Effect t w (some (.handshakeResponse p)) ({ t with handshake := h }.installInitiator s') w''
  | reject {t t' : Tunn K} (w : World K N BYTES) {p : Data} {dstLen : ℕ} {e : WireGuardError}
      (call : t.decryptRawData p dstLen = .ok (.error e, t')) : Effect t w none t' w
  | receive {t t' : Tunn K} (w : World K N BYTES) {p : Data} {dstLen : ℕ} {plaintext : Bytes}
      {packet : Packet} (hp : packet = .data p ∨ packet = .relayData p)
      (call : t.decryptRawData p dstLen = .ok (.ok plaintext, t')) : Effect t w (some packet) t' w

inductive Path : Tunn K → World K N BYTES → List Packet → Tunn K → World K N BYTES → Prop
  | nil (t : Tunn K) (w : World K N BYTES) : Path t w [] t w
  | cons {t t' t'' : Tunn K} {w w' w'' : World K N BYTES} {l : Option Packet} {ls : List Packet}
      (effect : Effect t w l t' w') (rest : Path t' w' ls t'' w'') :
      Path t w (l.toList ++ ls) t'' w''

namespace Path

variable {t t' t'' : Tunn K} {w w' w'' : World K N BYTES} {ls ls' : List Packet}

theorem single {l : Option Packet} (effect : Effect t w l t' w') : Path t w l.toList t' w' := by
  have h := Path.cons effect (.nil t' w')
  rwa [List.append_nil] at h

theorem append (h : Path t w ls t' w') (h' : Path t' w' ls' t'' w'') :
    Path t w (ls ++ ls') t'' w'' := by
  induction h with
  | nil => exact h'
  | cons effect rest ih =>
    rw [List.append_assoc]
    exact .cons effect (ih h')

theorem silent (effect : Effect t w none t' w') (rest : Path t' w' ls t'' w'') :
    Path t w ls t'' w'' := .cons effect rest

theorem andThen (h : Path t w [] t' w') (rest : Path t' w' ls t'' w'') : Path t w ls t'' w'' :=
  h.append rest

theorem invariant {I : Tunn K → World K N BYTES → Prop}
    (hstep : ∀ {t t' : Tunn K} {w w' : World K N BYTES} {l : Option Packet},
      Effect t w l t' w' → I t w → I t' w')
    (h : Path t w ls t' w') (hinv : I t w) : I t' w' := by
  induction h with
  | nil => exact hinv
  | cons effect rest ih => exact ih (hstep effect hinv)

end Path

theorem Timers.SameClock.of_timers {t t' : Timers} (hstarted : t'.timeStarted = t.timeStarted)
    (hstamps : t'.sessionTimers = t.sessionTimers) (htimers : t'.timers = t.timers) :
    t.SameClock t' where
  timeStarted := hstarted
  sessionTimers := hstamps
  stamped name := .inl (by rw [htimers])

theorem Timers.SameClock.refl (t : Timers) : t.SameClock t := .of_timers rfl rfl rfl

theorem Timers.SameClock.timeCurrent {t t' : Timers} (h : t.SameClock t') :
    t'.timers .timeCurrent = t.timers .timeCurrent := by
  rcases h.stamped .timeCurrent with hsame | hsame
  · exact hsame
  · exact hsame

theorem Timers.SameClock.trans {t t' t'' : Timers} (h : t.SameClock t') (h' : t'.SameClock t'') :
    t.SameClock t'' where
  timeStarted := h'.timeStarted.trans h.timeStarted
  sessionTimers := h'.sessionTimers.trans h.sessionTimers
  stamped := by
    intro name
    rcases h'.stamped name with hsame | hnow
    · rw [hsame]
      exact h.stamped name
    · right
      rw [hnow, h.timeCurrent]

theorem Timers.tick_sameClock (t : Timers) {name : TimerName} (hname : name ≠ .timeCurrent) :
    t.SameClock (t.tick name) := by
  have hstamped (other : TimerName) :
      Function.update t.timers name (t.timers .timeCurrent) other = t.timers other ∨
        Function.update t.timers name (t.timers .timeCurrent) other = t.timers .timeCurrent := by
    rw [Function.update_apply]
    split
    · exact .inr rfl
    · exact .inl rfl
  cases name with
  | timeCurrent => exact absurd rfl hname
  | _ => exact ⟨rfl, rfl, hstamped⟩

theorem Timers.SameClock.tick {t t' : Timers} (h : t.SameClock t') {name : TimerName}
    (hname : name ≠ .timeCurrent) : t.SameClock (t'.tick name) := h.trans (t'.tick_sameClock hname)

theorem Timers.setPersistentKeepalive_sameClock (t : Timers) (keepalive : Option ℕ) :
    t.SameClock (t.setPersistentKeepalive keepalive) := .of_timers rfl rfl rfl

theorem Timers.due_sameClock {t t' : Timers} {now : ℕ} {handshake keepalive : Bool}
    (h : t.due now = .ok (handshake, keepalive, t')) : t.SameClock t' := by
  have hreply : ∀ {t t' : Timers} {b : Bool}, t.replyOverdue now = .ok (b, t') →
      t.SameClock t' := by
    intro t t' b h
    obtain ⟨elapsed, -, h⟩ := bind_ok_iff.mp h
    cases elapsed <;> (cases h; exact .of_timers rfl rfl rfl)
  have hidle : ∀ {t t' : Timers} {b : Bool}, t.keepaliveDue now = .ok (b, t') →
      t.SameClock t' := by
    intro t t' b h
    obtain ⟨elapsed, -, h⟩ := bind_ok_iff.mp h
    cases elapsed <;> (cases h; exact .of_timers rfl rfl rfl)
  have hpersistent : ∀ {t t' : Timers} {b : Bool}, t.persistentKeepaliveDue now = .ok (b, t') →
      t.SameClock t' := by
    intro t t' b h
    rw [persistentKeepaliveDue] at h
    split at h
    · split at h
      · cases h
        have hflag : t.SameClock { t with sendInitialKeepalive := false } := .of_timers rfl rfl rfl
        apply hflag.trans
        exact Timers.tick_sameClock _ (show TimerName.timePersistentKeepalive ≠ _ by decide)
      · obtain ⟨elapsed, -, h⟩ := bind_ok_iff.mp h
        cases elapsed with
        | false =>
          cases h
          exact .refl t
        | true =>
          cases h
          exact t.tick_sameClock (by decide)
    · cases h
      exact .refl t
  obtain ⟨rekey, -, h⟩ := bind_ok_iff.mp h
  obtain ⟨⟨overdue, t₁⟩, h₁, h⟩ := bind_ok_iff.mp h
  cases hor : rekey || overdue with
  | true =>
    simp only [hor, if_true, pure_eq_ok] at h
    cases h
    exact hreply h₁
  | false =>
    simp only [hor] at h
    obtain ⟨⟨idle, t₂⟩, h₂, h⟩ := bind_ok_iff.mp h
    obtain ⟨⟨persistent, t₃⟩, h₃, h⟩ := bind_ok_iff.mp h
    cases h
    exact ((hreply h₁).trans (hidle h₂)).trans (hpersistent h₃)

namespace Tunn

variable {t t' : Tunn K} {w w' : World K N BYTES} {r : TunnResult} {packetType : MessageType}
  {src : Bytes} {dstLen : ℕ}

theorem timerTick_path (t : Tunn K) (w : World K N BYTES) {name : TimerName}
    (hname : name ≠ .timeCurrent) : Path t w [] (t.timerTick name) w :=
  .single (.timers (t.timers.tick_sameClock hname))

theorem count_path (t : Tunn K) (w : World K N BYTES) (traffic : Traffic) :
    Path t w [] { t with traffic := traffic } w := .single (.count t w traffic)

theorem countSent_path (h : Path t w [] t' w') (bytes : ℕ) : Path t w [] (t'.countSent bytes) w' :=
  h.append (count_path t' w' _)

theorem tickSent_path (t : Tunn K) (w : World K N BYTES) (src : Bytes) :
    Path t w [] (t.tickSent src) w := by
  have hsent : Path t w [] (t.timerTick .timeLastPacketSent) w := timerTick_path t w (by decide)
  rw [tickSent]
  apply countSent_path
  split
  · exact hsent.append (timerTick_path _ w (by decide))
  · exact hsent

theorem dropExpiredQueuedPackets_path {now dropped : ℕ}
    (h : t.dropExpiredQueuedPackets now w = .ok (dropped, t', w')) : Path t w [] t' w' := by
  obtain ⟨⟨dropped, q, pool⟩, -, h⟩ := bind_ok_iff.mp h
  cases h
  exact .single (.queue t w q pool)

theorem clearPacketQueue_path (h : t.clearPacketQueue w = .ok (t', w')) : Path t w [] t' w' := by
  obtain ⟨⟨q, pool⟩, -, h⟩ := bind_ok_iff.mp h
  cases h
  exact .single (.queue t w q pool)

theorem queuePacket_path (h : t.queuePacket packetType src w = .ok (t', w')) :
    Path t w [] t' w' := by
  rw [queuePacket] at h
  split at h
  · cases h
    exact .nil t w
  · obtain ⟨⟨dropped, t₁, w₁⟩, hdrop, h⟩ := bind_ok_iff.mp h
    obtain ⟨⟨q, pool⟩, -, h⟩ := bind_ok_iff.mp h
    cases h
    exact .silent (.read t w)
      ((dropExpiredQueuedPackets_path hdrop).append (.single (.queue t₁ w₁ q pool)))

theorem clearTimersIfExpired_path (t : Tunn K) (w : World K N BYTES) :
    Path t w [] (t.clearTimersIfExpired w).1 (t.clearTimersIfExpired w).2 := by
  rw [clearTimersIfExpired]
  split
  · exact .single (.clearTimers t w)
  · exact .nil t w

theorem formatHandshakeInitiation_path {force : Bool}
    (h : t.formatHandshakeInitiation dstLen force w = .ok (r, t', w')) : Path t w [] t' w' := by
  rw [formatHandshakeInitiation] at h
  split at h
  · cases h
    exact .nil t w
  have hclear := clearTimersIfExpired_path t w
  revert h hclear
  generalize t.clearTimersIfExpired w = start
  obtain ⟨t₁, w₁⟩ := start
  intro h hclear
  apply hclear.andThen
  obtain ⟨⟨packet, hs, w₂⟩, hcall, h⟩ := bind_ok_iff.mp h
  cases packet with
  | error e =>
    cases h
    obtain ⟨rfl, rfl⟩ := Handshake.formatHandshakeInitiation_error hcall
    exact .nil _ _
  | ok packet =>
    cases h
    have hinit := Path.single (.initiate hcall)
    apply countSent_path
    split
    · exact hinit.append ((timerTick_path _ _ (by decide)).append (timerTick_path _ _ (by decide)))
    · exact hinit.append (timerTick_path _ _ (by decide))

theorem encapsulateWithType_path
    (h : t.encapsulateWithType packetType src dstLen w = .ok (r, t', w')) : Path t w [] t' w' := by
  obtain ⟨⟨written, t₁, w₁⟩, hseal, h⟩ := bind_ok_iff.mp h
  have hpath := Path.single (.encrypt hseal)
  cases written with
  | some packet =>
    cases h
    exact hpath.append (tickSent_path t₁ _ src)
  | none =>
    obtain ⟨⟨t₂, w₂⟩, hqueue, h⟩ := bind_ok_iff.mp h
    exact hpath.append ((queuePacket_path hqueue).append (formatHandshakeInitiation_path h))

theorem flushQueuedPacket_path (h : t.flushQueuedPacket dstLen w = .ok (r, t', w')) :
    Path t w [] t' w' := by
  obtain ⟨⟨handle, t₁, w₁⟩, hdequeue, h⟩ := bind_ok_iff.mp h
  have hpath : Path t w [] t₁ w₁ := by
    obtain ⟨⟨handle, q, pool⟩, -, hdequeue⟩ := bind_ok_iff.mp hdequeue
    cases hdequeue
    exact .single (.queue t w q pool)
  apply hpath.andThen
  cases handle with
  | none =>
    cases h
    exact .nil _ _
  | some handle =>
    obtain ⟨⟨packetType, packet⟩, -, h⟩ := bind_ok_iff.mp h
    obtain ⟨⟨written, t₂, w₂⟩, hseal, h⟩ := bind_ok_iff.mp h
    apply (Path.single (.encrypt hseal)).andThen
    cases written with
    | some written =>
      obtain ⟨pool, -, h⟩ := bind_ok_iff.mp h
      cases h
      exact (tickSent_path t₂ w₂ packet).append (.single (.queue _ w₂ _ pool))
    | none =>
      obtain ⟨⟨t₃, w₃⟩, hrequeue, h⟩ := bind_ok_iff.mp h
      obtain ⟨⟨q, pool⟩, -, hrequeue⟩ := bind_ok_iff.mp hrequeue
      cases hrequeue
      cases h
      exact .single (.queue t₂ w₂ q pool)

theorem expire_path (h : t.expire w = .ok (r, t', w')) : Path t w [] t' w' := by
  obtain ⟨⟨t₁, w₁⟩, hclear, h⟩ := bind_ok_iff.mp h
  obtain ⟨⟨t₂, w₂⟩, hqueue, hclear⟩ := bind_ok_iff.mp hclear
  cases hclear
  cases h
  exact .silent (.expireHandshake t w)
    ((clearPacketQueue_path hqueue).append (.single (.clearTimers t₂ w₂)))

theorem clearOldCookie_ok {now : ℕ} (h : t.clearOldCookie now = .ok t') :
    ∃ writeCookie, t' = { t with
      handshake := { t.handshake with
        cookies := { t.handshake.cookies with writeCookie := writeCookie } } } := by
  rw [clearOldCookie] at h
  split at h
  · obtain ⟨old, -, h⟩ := bind_ok_iff.mp h
    cases old with
    | true =>
      cases h
      exact ⟨none, rfl⟩
    | false =>
      cases h
      exact ⟨_, rfl⟩
  · cases h
    exact ⟨_, rfl⟩

theorem clearOldCookie_path {now : ℕ} (h : t.clearOldCookie now = .ok t') :
    Path t w [] t' w := by
  obtain ⟨writeCookie, rfl⟩ := clearOldCookie_ok h
  exact .single (.cookies t w writeCookie)

inductive TimerAction (t : Tunn K) (now dstLen : ℕ) (w : World K N BYTES) :
    TunnResult → Tunn K → World K N BYTES → Prop
  | expired : TimerAction t now dstLen w (.err .connectionExpired) t w
  | giveUp {t₁ t' : Tunn K} {w' : World K N BYTES} {r : TunnResult}
      (cookie : t.clearOldCookie now = .ok t₁) (call : t₁.expire w = .ok (r, t', w')) :
      TimerAction t now dstLen w r t' w'
  | retry {t₁ t' : Tunn K} {w' : World K N BYTES} {r : TunnResult}
      (cookie : t.clearOldCookie now = .ok t₁)
      (call : t₁.formatHandshakeInitiation dstLen true w.now.2 = .ok (r, t', w')) :
      TimerAction t now dstLen w r t' w'
  | wait {t₁ : Tunn K} (cookie : t.clearOldCookie now = .ok t₁) :
      TimerAction t now dstLen w .done t₁ w.now.2
  | rekey {t₁ t' : Tunn K} {w' : World K N BYTES} {r : TunnResult} {keepalive : Bool}
      {timers : Timers} (cookie : t.clearOldCookie now = .ok t₁)
      (due : t₁.timers.due now = .ok (true, keepalive, timers))
      (call : { t₁ with timers := timers }.formatHandshakeInitiation dstLen true w =
        .ok (r, t', w')) :
      TimerAction t now dstLen w r t' w'
  | keepalive {t₁ t' : Tunn K} {w' : World K N BYTES} {r : TunnResult} {timers : Timers}
      (cookie : t.clearOldCookie now = .ok t₁)
      (due : t₁.timers.due now = .ok (false, true, timers))
      (call : { t₁ with timers := timers }.encapsulate [] dstLen w = .ok (r, t', w')) :
      TimerAction t now dstLen w r t' w'
  | idle {t₁ : Tunn K} {timers : Timers} (cookie : t.clearOldCookie now = .ok t₁)
      (due : t₁.timers.due now = .ok (false, false, timers)) :
      TimerAction t now dstLen w .done { t₁ with timers := timers } w

def elapsed (t : Tunn K) (w : World K N BYTES) : ℕ := w.clock w.reads - t.timers.timeStarted

theorem updateTimers_cases (h : t.updateTimers dstLen w = .ok (r, t', w')) :
    ∃ t₁, { t with timers := t.timers.set .timeCurrent (t.elapsed w) }.updateSessionTimers
        (t.elapsed w) = .ok t₁ ∧
      TimerAction t₁ (t.elapsed w) dstLen w.now.2 r t' w' := by
  obtain ⟨t₁, hexpire, h⟩ := bind_ok_iff.mp h
  refine ⟨t₁, hexpire, ?_⟩
  split at h
  · cases h
    exact .expired
  obtain ⟨t₂, hcookie, h⟩ := bind_ok_iff.mp h
  obtain ⟨old, -, h⟩ := bind_ok_iff.mp h
  cases old with
  | true => exact .giveUp hcookie h
  | false =>
    simp only [Bool.false_eq_true, if_false] at h
    cases htimer : t₂.handshake.timer with
    | some timeInitSent =>
      simp only [htimer] at h
      obtain ⟨tried, -, h⟩ := bind_ok_iff.mp h
      cases tried with
      | true => exact .giveUp hcookie h
      | false =>
        simp only [Bool.false_eq_true, if_false] at h
        split at h
        · exact .retry hcookie h
        · cases h
          exact .wait hcookie
    | none =>
      simp only [htimer] at h
      obtain ⟨⟨handshake, keepalive, timers⟩, hdue, h⟩ := bind_ok_iff.mp h
      cases handshake with
      | true => exact .rekey hcookie hdue h
      | false =>
        cases keepalive with
        | true => exact .keepalive hcookie hdue h
        | false =>
          cases h
          exact .idle hcookie hdue

theorem updateTimers_path (h : t.updateTimers dstLen w = .ok (r, t', w')) : Path t w [] t' w' := by
  obtain ⟨t₁, hexpire, haction⟩ := updateTimers_cases h
  apply Path.silent (.observe t w)
  apply Path.silent (.expireSessions _ (by simpa [Timers.set, World.now, elapsed] using hexpire))
  cases haction with
  | expired => exact .nil _ _
  | giveUp cookie call => exact (clearOldCookie_path cookie).andThen (expire_path call)
  | retry cookie call =>
    exact (clearOldCookie_path cookie).andThen
      (.silent (.read _ _) (formatHandshakeInitiation_path call))
  | wait cookie => exact (clearOldCookie_path cookie).andThen (.single (.read _ _))
  | rekey cookie due call =>
    exact (clearOldCookie_path cookie).andThen
      (.silent (.timers (Timers.due_sameClock due)) (formatHandshakeInitiation_path call))
  | keepalive cookie due call =>
    exact (clearOldCookie_path cookie).andThen
      (.silent (.timers (Timers.due_sameClock due)) (encapsulateWithType_path call))
  | idle cookie due =>
    exact (clearOldCookie_path cookie).andThen (.single (.timers (Timers.due_sameClock due)))

theorem validateDecapsulatedPacket_path (t : Tunn K) (w : World K N BYTES) (packet : Bytes) :
    Path t w [] (t.validateDecapsulatedPacket packet).2 w := by
  have htick (bytes : ℕ) :
      Path t w [] ((t.timerTick .timeLastDataPacketReceived).countReceivedBytes bytes) w :=
    (timerTick_path t w (by decide)).append (count_path _ w _)
  rw [validateDecapsulatedPacket]
  split
  · exact .nil t w
  split
  · exact .nil t w
  split
  · exact .nil t w
  split
  · exact .nil t w
  split
  · exact htick _
  · exact htick _

theorem decryptRawData_path {p : Data} {packet : Packet}
    (hp : packet = .data p ∨ packet = .relayData p) {r : Outcome Bytes}
    (h : t.decryptRawData p dstLen = .ok (r, t')) :
    Path t w (if r.isOk then [packet] else []) t' w := by
  cases r with
  | ok plaintext => exact .single (.receive w hp h)
  | error e => exact .single (.reject w h)

def Accepts (packet : Packet) (r : TunnResult) : Prop :=
  (∀ p, packet ≠ .cookieReply p) ∧ ∀ e, r ≠ .err e

inductive PacketAction (t : Tunn K) (w : World K N BYTES) (dstLen : ℕ) :
    Packet → TunnResult → Tunn K → World K N BYTES → Prop
  | refuse {p : HandshakeInit} {e : WireGuardError} {h : Handshake K} {w' : World K N BYTES}
      (call : t.handshake.receiveHandshakeInitialization p dstLen w = .ok (.error e, h, w')) :
      PacketAction t w dstLen (.handshakeInit p) (.err e) { t with handshake := h } w'
  | respond {p : HandshakeInit} {packet : Bytes} {s : Session} {h : Handshake K}
      {w' : World K N BYTES}
      (call : t.handshake.receiveHandshakeInitialization p dstLen w =
        .ok (.ok (packet, s), h, w')) :
      PacketAction t w dstLen (.handshakeInit p) (.writeToNetwork packet)
        ({ t with handshake := h }.installResponder s) w'
  | misdirected {p : HandshakeResponse} {e : WireGuardError} {h : Handshake K}
      {w' : World K N BYTES}
      (call : t.handshake.receiveHandshakeResponse p w = .ok (.error e, h, w')) :
      PacketAction t w dstLen (.handshakeResponse p) (.err e) { t with handshake := h } w'
  | conclude {p : HandshakeResponse} {keepalive : Bytes} {s s' : Session} {h : Handshake K}
      {w' w'' : World K N BYTES}
      (call : t.handshake.receiveHandshakeResponse p w = .ok (.ok s, h, w'))
      (sent : w'.sealPacket s MessageType.data [] dstLen = .ok (some keepalive, s', w'')) :
      PacketAction t w dstLen (.handshakeResponse p) (.writeToNetwork keepalive)
        ({ t with handshake := h }.installInitiator s') w''
  | refuseCookie {p : CookieReply} {e : WireGuardError} {h : Handshake K}
      (call : t.handshake.receiveCookieReply p = .ok (.error e, h)) :
      PacketAction t w dstLen (.cookieReply p) (.err e) { t with handshake := h } w
  | cookie {p : CookieReply} {h : Handshake K}
      (call : t.handshake.receiveCookieReply p = .ok (.ok (), h)) :
      PacketAction t w dstLen (.cookieReply p) .done
        (({ t with handshake := h }.timerTick .timeLastPacketReceived).countReceived.timerTick
          .timeCookieReceived) w
  | reject {p : Data} {e : WireGuardError} {t' : Tunn K}
      (call : t.decryptRawData p dstLen = .ok (.error e, t')) :
      PacketAction t w dstLen (.data p) (.err e) t' w
  | receive {p : Data} {plaintext : Bytes} {t₁ t' : Tunn K} {r : TunnResult}
      (call : t.decryptRawData p dstLen = .ok (.ok plaintext, t₁))
      (valid : t₁.validateDecapsulatedPacket plaintext = (r, t')) :
      PacketAction t w dstLen (.data p) r t' w
  | foreign {p : Data} : PacketAction t w dstLen (.relayData p) (.err .invalidPacket) t w

theorem handleVerifiedPacket_cases {packet : Packet}
    (h : t.handleVerifiedPacket packet dstLen w = .ok (r, t', w')) :
    PacketAction t w dstLen packet r t' w' := by
  cases packet with
  | handshakeInit p =>
    obtain ⟨⟨answer, t₁, w₁⟩, hcall, h⟩ := bind_ok_iff.mp h
    obtain ⟨⟨received, hs, w₂⟩, hreceive, hcall⟩ := bind_ok_iff.mp hcall
    cases h
    cases received with
    | error e =>
      cases hcall
      exact .refuse hreceive
    | ok received =>
      cases hcall
      exact .respond hreceive
  | handshakeResponse p =>
    obtain ⟨⟨answer, t₁, w₁⟩, hcall, h⟩ := bind_ok_iff.mp h
    obtain ⟨⟨received, hs, w₂⟩, hreceive, hcall⟩ := bind_ok_iff.mp hcall
    cases h
    cases received with
    | error e =>
      cases hcall
      exact .misdirected hreceive
    | ok s =>
      obtain ⟨⟨keepalive, s', w₃⟩, hseal, hcall⟩ := bind_ok_iff.mp hcall
      cases keepalive with
      | none => cases hcall
      | some keepalive =>
        cases hcall
        exact .conclude hreceive hseal
  | cookieReply p =>
    obtain ⟨⟨answer, t₁⟩, hcall, h⟩ := bind_ok_iff.mp h
    obtain ⟨⟨received, hs⟩, hreceive, hcall⟩ := bind_ok_iff.mp hcall
    cases h
    cases received with
    | error e =>
      cases hcall
      exact .refuseCookie hreceive
    | ok u =>
      cases hcall
      exact .cookie hreceive
  | data p =>
    obtain ⟨⟨answer, t₁⟩, hcall, h⟩ := bind_ok_iff.mp h
    obtain ⟨⟨opened, t₂⟩, hdecrypt, hcall⟩ := bind_ok_iff.mp hcall
    cases h
    cases opened with
    | error e =>
      cases hcall
      exact .reject hdecrypt
    | ok plaintext =>
      cases hcall
      exact .receive hdecrypt rfl
  | relayData p =>
    cases h
    exact .foreign

theorem handleVerifiedPacket_path {packet : Packet}
    (h : t.handleVerifiedPacket packet dstLen w = .ok (r, t', w')) :
    ∃ ls, Path t w ls t' w' ∧ ls ⊆ [packet] ∧ (Accepts packet r → ls = [packet]) := by
  have hnone : ([] : List Packet) ⊆ [packet] := List.nil_subset _
  have hall : [packet] ⊆ [packet] := List.Subset.refl _
  cases handleVerifiedPacket_cases h with
  | refuse call => exact ⟨[], .single (.refuse call), hnone, fun hacc => absurd rfl (hacc.2 _)⟩
  | respond call => exact ⟨_, .single (.respond call), hall, fun _ => rfl⟩
  | misdirected call =>
    obtain ⟨rfl, rfl⟩ := Handshake.receiveHandshakeResponse_error call
    exact ⟨[], .nil _ _, hnone, fun hacc => absurd rfl (hacc.2 _)⟩
  | conclude call sent => exact ⟨_, .single (.conclude call sent), hall, fun _ => rfl⟩
  | refuseCookie call =>
    obtain ⟨writeCookie, rfl⟩ := Handshake.receiveCookieReply_cookies call
    exact ⟨[], .single (.cookies t w writeCookie), hnone, fun hacc => absurd rfl (hacc.1 _)⟩
  | cookie call =>
    obtain ⟨writeCookie, rfl⟩ := Handshake.receiveCookieReply_cookies call
    refine ⟨[], ?_, hnone, fun hacc => absurd rfl (hacc.1 _)⟩
    exact .silent (.cookies t w writeCookie) ((timerTick_path _ _ (by decide)).append
      ((count_path _ _ _).append (timerTick_path _ _ (by decide))))
  | reject call =>
    exact ⟨_, decryptRawData_path (.inl rfl) call, hnone, fun hacc => absurd rfl (hacc.2 _)⟩
  | receive call valid =>
    obtain ⟨rfl, rfl⟩ := Prod.ext_iff.mp valid
    exact ⟨_, (decryptRawData_path (w := w) (.inl rfl) call).append
      (validateDecapsulatedPacket_path _ w _), hall, fun _ => rfl⟩
  | foreign => exact ⟨[], .nil _ _, hnone, fun hacc => absurd rfl (hacc.2 _)⟩

theorem handleVerifiedRelayPacket_path {packet : Packet} {r : Outcome Bytes}
    (h : t.handleVerifiedRelayPacket packet dstLen = .ok (r, t')) :
    ∃ ls, Path t w ls t' w ∧ ls ⊆ [packet] ∧ (r.isOk → ls = [packet]) := by
  cases packet with
  | relayData p =>
    refine ⟨_, decryptRawData_path (.inr rfl) h, ?_, fun hok => ?_⟩
    · split
      · exact List.Subset.refl _
      · exact List.nil_subset _
    · rw [if_pos hok]
  | _ =>
    cases h
    exact ⟨[], .nil _ _, List.nil_subset _, (nomatch ·)⟩

end Tunn

end Tendrilix.Noise
