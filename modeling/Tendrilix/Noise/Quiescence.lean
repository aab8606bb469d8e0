import Tendrilix.Noise.Rejection
import Tendrilix.Noise.StampOrder
import Tendrilix.Noise.TimeStamps

/-!
# Unused tunnels fall silent

A tunnel that nobody uses may still rekey once and send one keepalive. Initiations that are not
answered are sent again no sooner than their timeout and no longer than the attempt lasts, so a
budget of datagrams that depends on the state alone is never exceeded.
-/

namespace Tendrilix.Noise

variable {K : Crypto} {N BYTES : ℕ}

theorem Handshake.formatHandshakeInitiation_timeSent {h h' : Handshake K} {w w' : World K N BYTES}
    {dstLen : ℕ} {stamper : TimeStamper} {packet : Bytes} {sent : HandshakeInitSentState K}
    (call : h.formatHandshakeInitiation dstLen stamper w = .ok (.ok packet, h', w'))
    (hstate : h'.state = .initSent sent) : sent.timeSent = w.clock (w.reads + 1) := by
  rw [formatHandshakeInitiation] at call
  split at call
  · cases call
  · obtain ⟨⟨timestamp, w₁⟩, hstamp, call⟩ := bind_ok_iff.mp call
    have hw := TimeStamper.stamp_world hstamp
    subst hw
    cases call
    cases hstate
    rfl

theorem Handshake.isExpired_iff {h : Handshake K} : h.isExpired = true ↔ h.state = .expired := by
  rw [isExpired]
  cases h.state <;> simp

theorem Handshake.timer_eq_some {h : Handshake K} {timeSent : ℕ} :
    h.timer = some timeSent ↔ ∃ sent, h.state = .initSent sent ∧ sent.timeSent = timeSent := by
  rw [timer, Option.map_eq_some_iff]
  simp only [initSent?_eq_some]

theorem Handshake.consume_state {h : Handshake K} {receiverIdx : ℕ} {sent : HandshakeInitSentState K}
    (hstate : (h.consume receiverIdx).state = .initSent sent) : h.state = .initSent sent := by
  rw [consume] at hstate
  split at hstate
  · cases hstate
  · exact hstate

namespace Tunn

def maxRetries : ℕ := rekeyAttemptTime / rekeyTimeout

def attemptStart (t : Tunn K) : ℕ :=
  t.timers.timeStarted + t.timers.timers .timeLastHandshakeStarted

/-- The datagrams that the timers may still send. -/
def budget (t : Tunn K) : ℕ :=
  match t.handshake.state with
  | .expired => 0
  | .initSent sent =>
    if t.attemptStart ≤ sent.timeSent then
      maxRetries - (sent.timeSent - t.attemptStart) / rekeyTimeout
    else maxRetries + 1
  | _ => maxRetries + 1 + t.timers.wantKeepalive.toNat

structure Punctual (t : Tunn K) (w : World K N BYTES) : Prop where
  onTime : t.OnTime w
  started_le : t.timers.timeStarted ≤ w.clock w.reads
  sent_le : ∀ sent, t.handshake.state = .initSent sent → sent.timeSent ≤ w.clock w.reads

structure SameAttempt (t t' : Tunn K) : Prop where
  state : t'.handshake.state = t.handshake.state
  timeStarted : t'.timers.timeStarted = t.timers.timeStarted
  start : t'.attemptStart = t.attemptStart
  wantKeepalive : t'.timers.wantKeepalive = t.timers.wantKeepalive
  persistentKeepalive : t'.timers.persistentKeepalive = t.timers.persistentKeepalive

variable {t t' : Tunn K} {w w' : World K N BYTES} {dstLen : ℕ} {r : TunnResult}

theorem budget_le (t : Tunn K) : t.budget ≤ maxRetries + 2 := by
  have hflag := Bool.toNat_le t.timers.wantKeepalive
  rw [budget]
  split
  · exact Nat.zero_le _
  · split
    · exact (Nat.sub_le _ _).trans (Nat.le_add_right _ _)
    · exact Nat.le_succ _
  · omega

theorem SameAttempt.budget (h : SameAttempt t t') : t'.budget = t.budget := by
  rw [Tunn.budget, Tunn.budget, h.state, h.start, h.wantKeepalive]

theorem SameAttempt.trans {t'' : Tunn K} (h : SameAttempt t t') (h' : SameAttempt t' t'') :
    SameAttempt t t'' where
  state := h'.state.trans h.state
  timeStarted := h'.timeStarted.trans h.timeStarted
  start := h'.start.trans h.start
  wantKeepalive := h'.wantKeepalive.trans h.wantKeepalive
  persistentKeepalive := h'.persistentKeepalive.trans h.persistentKeepalive

/-! ### Nothing is dated ahead of the clock -/

structure Passes (t : Tunn K) (w : World K N BYTES) (t' : Tunn K) (w' : World K N BYTES) : Prop where
  clock_eq : w'.clock = w.clock
  reads_le : w.reads ≤ w'.reads
  started_eq : t'.timers.timeStarted = t.timers.timeStarted
  sent : ∀ sent, t'.handshake.state = .initSent sent →
    t.handshake.state = .initSent sent ∨ ∃ n < w'.reads, sent.timeSent = w.clock n

theorem Passes.of_state (hclock : w'.clock = w.clock) (hreads : w.reads ≤ w'.reads)
    (hstarted : t'.timers.timeStarted = t.timers.timeStarted)
    (hstate : t'.handshake.state = t.handshake.state) : Passes t w t' w' :=
  ⟨hclock, hreads, hstarted, fun _ hsent => .inl (hstate ▸ hsent)⟩

theorem Passes.installed {h : Handshake K} {s : Session}
    (hinst : Installed { t with handshake := h } s t') (hclock : w'.clock = w.clock)
    (hreads : w.reads ≤ w'.reads)
    (hstate : ∀ sent, h.state = .initSent sent → t.handshake.state = .initSent sent) :
    Passes t w t' w' := by
  refine ⟨hclock, hreads, hinst.timeStarted_eq, fun sent hsent => ?_⟩
  rw [hinst.handshake_eq] at hsent
  exact .inl (hstate sent hsent)

theorem decryptRawData_handshake {p : Data} {plaintext : Bytes}
    (call : t.decryptRawData p dstLen = .ok (.ok plaintext, t')) : t'.handshake = t.handshake := by
  obtain ⟨s, s', -, -, rfl⟩ := decryptRawData_ok call
  exact setCurrentSession_handshake _ _

theorem Effect.passes {l : Option Packet} (effect : Effect t w l t' w') : Passes t w t' w' := by
  cases effect with
  | timers same => exact .of_state rfl le_rfl same.timeStarted rfl
  | count | queue | cookies => exact .of_state rfl le_rfl rfl rfl
  | read | observe | clearTimers => exact .of_state rfl (Nat.le_succ _) rfl rfl
  | expireSessions _ call =>
    rw [updateSessionTimers_ok call]
    exact .of_state rfl le_rfl rfl rfl
  | encrypt call =>
    rcases sealWithCurrent_ok call with ⟨-, rfl, rfl, -⟩ | ⟨packet, s, -, hs, -, rfl, rfl⟩
    · exact .of_state rfl le_rfl rfl rfl
    · exact .of_state rfl le_rfl rfl rfl
  | expireHandshake => exact ⟨rfl, le_rfl, rfl, nofun⟩
  | initiate call =>
    obtain ⟨sent, cookies, -, -, rfl, rfl⟩ := Handshake.formatHandshakeInitiation_ok call
    have htime := Handshake.formatHandshakeInitiation_timeSent call rfl
    refine ⟨rfl, Nat.le_add_right _ 2, rfl, ?_⟩
    rintro sent' ⟨⟩
    exact .inr ⟨w.reads + 1, Nat.lt_succ_self _, htime⟩
  | refuse call =>
    obtain ⟨rfl, rfl | ⟨_, _, _, -, -, rfl⟩⟩ := Handshake.receiveHandshakeInitialization_error call
    · exact .of_state rfl le_rfl rfl rfl
    · exact ⟨rfl, le_rfl, rfl, nofun⟩
  | respond call =>
    obtain ⟨timestamp, hash, chainingKey, keys, cookies, -, -, rfl, rfl, rfl⟩ :=
      Handshake.receiveHandshakeInitialization_ok call
    exact Passes.installed (installResponder_installed _ _) rfl le_rfl nofun
  | conclude call sent =>
    obtain ⟨state, keys, -, -, rfl, ⟨rtt, rfl⟩, rfl⟩ := Handshake.receiveHandshakeResponse_ok call
    rcases World.sealPacket_ok sent with ⟨hr, -⟩ | ⟨packet, -, -, rfl, rfl⟩
    · cases hr
    · exact Passes.installed (installInitiator_installed _ _) rfl (Nat.le_succ _)
        fun _ => Handshake.consume_state
  | reject _ call =>
    rw [decryptRawData_error call]
    exact .of_state rfl le_rfl rfl rfl
  | receive _ hp call =>
    have hstarted : t'.timers.timeStarted = t.timers.timeStarted := by
      rw [decryptRawData_timers call]
      rfl
    exact .of_state rfl le_rfl hstarted (by rw [decryptRawData_handshake call])

theorem Effect.punctual {l : Option Packet} (effect : Effect t w l t' w') (h : t.Punctual w) :
    t'.Punctual w' := by
  have honTime := Effect.onTime effect h.onTime
  have hpasses := Effect.passes effect
  have hlater : w.clock w.reads ≤ w.clock w'.reads :=
    h.onTime.fresh.monotone hpasses.reads_le
  refine ⟨honTime, ?_, fun sent hsent => ?_⟩
  · rw [hpasses.started_eq, hpasses.clock_eq]
    exact h.started_le.trans hlater
  · rw [hpasses.clock_eq]
    rcases hpasses.sent sent hsent with hbefore | ⟨n, hn, htime⟩
    · exact (h.sent_le sent hbefore).trans hlater
    · rw [htime]
      exact h.onTime.fresh.monotone hn.le

/-! ### What the timers send -/

def Idle (t : Tunn K) : Prop :=
  t.handshake.state ≠ .expired ∧ ∀ sent, t.handshake.state ≠ .initSent sent

/-- What `update_timers` does at `now`, with the reason, once old sessions and cookies are gone. -/
inductive Ticked (t : Tunn K) (now dstLen : ℕ) (w : World K N BYTES) :
    TunnResult → Tunn K → World K N BYTES → Prop
  | expired (state : t.handshake.state = .expired) : Ticked t now dstLen w (.err .connectionExpired) t w
  | giveUp {t' : Tunn K} {w' : World K N BYTES} {r : TunnResult}
      (call : t.expire w = .ok (r, t', w')) : Ticked t now dstLen w r t' w'
  | wait : Ticked t now dstLen w .done t w.now.2
  | retry {sent : HandshakeInitSentState K} {t' : Tunn K} {w' : World K N BYTES} {r : TunnResult}
      (state : t.handshake.state = .initSent sent)
      (started : t.timers.timers .timeLastHandshakeStarted ≤ now)
      (young : now < t.timers.timers .timeLastHandshakeStarted + rekeyAttemptTime)
      (due : sent.timeSent + rekeyTimeout ≤ w.clock w.reads)
      (call : t.formatHandshakeInitiation dstLen true w.now.2 = .ok (r, t', w')) :
      Ticked t now dstLen w r t' w'
  | rekey {t' : Tunn K} {w' : World K N BYTES} {r : TunnResult} {keepalive : Bool} {timers : Timers}
      (idle : t.Idle) (due : t.timers.due now = .ok (true, keepalive, timers))
      (call : { t with timers := timers }.formatHandshakeInitiation dstLen true w = .ok (r, t', w')) :
      Ticked t now dstLen w r t' w'
  | keepalive {t' : Tunn K} {w' : World K N BYTES} {r : TunnResult} {timers : Timers}
      (idle : t.Idle) (due : t.timers.due now = .ok (false, true, timers))
      (call : { t with timers := timers }.encapsulate [] dstLen w = .ok (r, t', w')) :
      Ticked t now dstLen w r t' w'
  | rest {timers : Timers} (idle : t.Idle) (due : t.timers.due now = .ok (false, false, timers)) :
      Ticked t now dstLen w .done { t with timers := timers } w

theorem elapsedAtLeast_ok {now start limit : ℕ} {b : Bool}
    (h : elapsedAtLeast now start limit = .ok b) : start ≤ now ∧ b = decide (limit ≤ now - start) := by
  rw [elapsedAtLeast] at h
  split at h
  · cases h
    exact ⟨‹_›, rfl⟩
  · cases h

theorem updateTimers_ticked (call : t.updateTimers dstLen w = .ok (r, t', w')) :
    ∃ t₁, SameAttempt t t₁ ∧ t₁.timers.timers .timeCurrent = t.elapsed w ∧
      Ticked t₁ (t.elapsed w) dstLen w.now.2 r t' w' := by
  obtain ⟨t₁, hexpire, call⟩ := bind_ok_iff.mp call
  have hsame := updateSessionTimers_ok hexpire
  have hattempt : SameAttempt t t₁ := by
    rw [hsame]
    exact ⟨rfl, rfl, rfl, rfl, rfl⟩
  have hnow : t₁.timers.timers .timeCurrent = t.elapsed w := by
    rw [hsame]
    change Function.update t.timers.timers .timeCurrent (t.elapsed w) .timeCurrent = t.elapsed w
    exact Function.update_self ..
  split at call
  · rename_i hexpired
    cases call
    exact ⟨t', hattempt, hnow, .expired (Handshake.isExpired_iff.mp hexpired)⟩
  rename_i hawake
  obtain ⟨t₂, hcookie, call⟩ := bind_ok_iff.mp call
  obtain ⟨writeCookie, hcleared⟩ := clearOldCookie_ok hcookie
  refine ⟨t₂, hcleared ▸ hattempt.trans ⟨rfl, rfl, rfl, rfl, rfl⟩, hcleared ▸ hnow, ?_⟩
  have hstate : t₂.handshake.state = t₁.handshake.state := by rw [hcleared]
  obtain ⟨old, -, call⟩ := bind_ok_iff.mp call
  cases old with
  | true => exact .giveUp call
  | false =>
    simp only [Bool.false_eq_true, if_false] at call
    cases htimer : t₂.handshake.timer with
    | some timeInitSent =>
      simp only [htimer] at call
      obtain ⟨tried, helapsed, call⟩ := bind_ok_iff.mp call
      obtain ⟨hstarted, htried⟩ := elapsedAtLeast_ok helapsed
      obtain ⟨sent, hsent, rfl⟩ := Handshake.timer_eq_some.mp htimer
      cases tried with
      | true => exact .giveUp call
      | false =>
        have hyoung : t.elapsed w - t₂.timers.timers .timeLastHandshakeStarted < rekeyAttemptTime :=
          Nat.not_le.mp (of_decide_eq_false htried.symm)
        simp only [Bool.false_eq_true, if_false] at call
        split at call
        · rename_i hdue
          have hpos : 0 < rekeyTimeout := by decide
          change rekeyTimeout ≤ w.clock (w.reads + 1) - sent.timeSent at hdue
          have hlater : sent.timeSent + rekeyTimeout ≤ w.clock (w.reads + 1) := by omega
          exact .retry hsent hstarted (by omega) hlater call
        · cases call
          exact .wait
    | none =>
      simp only [htimer] at call
      obtain ⟨⟨handshake, keepalive, timers⟩, hdue, call⟩ := bind_ok_iff.mp call
      have hidle : t₂.Idle := by
        refine ⟨fun hexpired => hawake (Handshake.isExpired_iff.mpr (hstate ▸ hexpired)), ?_⟩
        intro sent hsent
        cases htimer.symm.trans (Handshake.timer_eq_some.mpr ⟨sent, hsent, rfl⟩)
      cases handshake with
      | true => exact .rekey hidle hdue call
      | false =>
        cases keepalive with
        | true => exact .keepalive hidle hdue call
        | false =>
          cases call
          exact .rest hidle hdue

theorem replyOverdue_ok {timers timers' : Timers} {now : ℕ} {overdue : Bool}
    (h : timers.replyOverdue now = .ok (overdue, timers')) :
    ∃ wantHandshake, timers' = { timers with wantHandshake := wantHandshake } := by
  obtain ⟨elapsed, -, h⟩ := bind_ok_iff.mp h
  cases elapsed with
  | true =>
    cases h
    exact ⟨false, rfl⟩
  | false =>
    cases h
    exact ⟨timers.wantHandshake, rfl⟩

theorem keepaliveDue_ok {timers timers' : Timers} {now : ℕ} {idle : Bool}
    (h : timers.keepaliveDue now = .ok (idle, timers')) :
    ∃ wantKeepalive, timers' = { timers with wantKeepalive := wantKeepalive } ∧
      wantKeepalive.toNat + idle.toNat ≤ timers.wantKeepalive.toNat := by
  obtain ⟨elapsed, -, h⟩ := bind_ok_iff.mp h
  cases elapsed with
  | true =>
    cases h
    exact ⟨false, rfl, (Nat.zero_add _).le⟩
  | false =>
    cases h
    exact ⟨timers.wantKeepalive, rfl, le_rfl⟩

theorem due_ok {timers timers' : Timers} {now : ℕ} {handshake keepalive : Bool}
    (hquiet : timers.persistentKeepalive = 0)
    (h : timers.due now = .ok (handshake, keepalive, timers')) :
    ∃ wantHandshake wantKeepalive,
      timers' = { timers with wantHandshake := wantHandshake, wantKeepalive := wantKeepalive } ∧
      wantKeepalive.toNat + keepalive.toNat ≤ timers.wantKeepalive.toNat := by
  obtain ⟨rekey, -, h⟩ := bind_ok_iff.mp h
  obtain ⟨⟨overdue, timers₁⟩, hreply, h⟩ := bind_ok_iff.mp h
  obtain ⟨wantHandshake, rfl⟩ := replyOverdue_ok hreply
  dsimp only at h
  split at h
  · cases h
    exact ⟨wantHandshake, timers.wantKeepalive, rfl, le_rfl⟩
  obtain ⟨⟨idle, timers₂⟩, hidle, h⟩ := bind_ok_iff.mp h
  obtain ⟨⟨persistent, timers₃⟩, hpersistent, h⟩ := bind_ok_iff.mp h
  obtain ⟨wantKeepalive, rfl, hflag⟩ := keepaliveDue_ok hidle
  rw [Timers.persistentKeepaliveDue, if_neg (by rw [hquiet]; exact lt_irrefl 0)] at hpersistent
  cases hpersistent
  cases h
  rw [Bool.or_false]
  exact ⟨wantHandshake, wantKeepalive, rfl, hflag⟩

/-! ### The budget -/

variable {force : Bool}

theorem formatHandshakeInitiation_awake (hawake : t.handshake.state ≠ .expired)
    (call : t.formatHandshakeInitiation dstLen force w = .ok (r, t', w')) :
    ((∀ packet, r ≠ .writeToNetwork packet) ∧ t' = t ∧ w' = w) ∨
    ∃ packet sent, r = .writeToNetwork packet ∧ t'.handshake.state = .initSent sent ∧
      sent.timeSent = w.clock (w.reads + 1) ∧
      t'.timers.persistentKeepalive = t.timers.persistentKeepalive ∧
      t'.attemptStart = t.timers.timeStarted +
        if t.handshake.isInProgress then t.timers.timers .timeLastHandshakeStarted
        else t.timers.timers .timeCurrent := by
  rw [formatHandshakeInitiation] at call
  split at call
  · cases call
    exact .inl ⟨(fun _ h => by cases h), rfl, rfl⟩
  rw [clearTimersIfExpired, if_neg (fun h => hawake (Handshake.isExpired_iff.mp h))] at call
  obtain ⟨⟨packet, h, w₁⟩, hformat, call⟩ := bind_ok_iff.mp call
  cases packet with
  | error e =>
    cases call
    obtain ⟨rfl, rfl⟩ := Handshake.formatHandshakeInitiation_error hformat
    exact .inl ⟨(fun _ h => by cases h), rfl, rfl⟩
  | ok packet =>
    cases call
    obtain ⟨sent, cookies, -, -, rfl, rfl⟩ := Handshake.formatHandshakeInitiation_ok hformat
    have htime := Handshake.formatHandshakeInitiation_timeSent hformat rfl
    cases hprogress : t.handshake.isInProgress with
    | true => exact .inr ⟨packet, sent, rfl, rfl, htime, rfl, rfl⟩
    | false => exact .inr ⟨packet, sent, rfl, rfl, htime, rfl, rfl⟩

def sends : TunnResult → Bool
  | .writeToNetwork _ => true
  | _ => false

theorem Idle.budget_eq (h : t.Idle) : t.budget = maxRetries + 1 + t.timers.wantKeepalive.toNat := by
  rw [budget]
  split
  · exact absurd ‹_› h.1
  · exact absurd ‹_› (h.2 _)
  · rfl

theorem budget_of_initSent {sent : HandshakeInitSentState K}
    (hstate : t.handshake.state = .initSent sent) (hstart : t.attemptStart ≤ sent.timeSent) :
    t.budget = maxRetries - (sent.timeSent - t.attemptStart) / rekeyTimeout := by
  rw [budget, hstate]
  exact if_pos hstart

def After (time : ℕ) (w : World K N BYTES) : Prop := ∀ n, w.reads ≤ n → time ≤ w.clock n

theorem formatHandshakeInitiation_budget {time : ℕ} (hidle : t.Idle) (hafter : After time w)
    (hstart : t.attemptStart ≤ time)
    (hcurrent : t.timers.timeStarted + t.timers.timers .timeCurrent ≤ time)
    (call : t.formatHandshakeInitiation dstLen force w = .ok (r, t', w')) :
    (sends r).toNat + t'.budget ≤ t.budget ∧
      t'.timers.persistentKeepalive = t.timers.persistentKeepalive := by
  rcases formatHandshakeInitiation_awake hidle.1 call with
    ⟨hr, rfl, rfl⟩ | ⟨packet, sent, rfl, hstate, htime, hkeepalive, hattempt⟩
  · refine ⟨?_, rfl⟩
    cases r with
    | writeToNetwork packet => exact absurd rfl (hr packet)
    | _ => exact (Nat.zero_add _).le
  · refine ⟨?_, hkeepalive⟩
    have hsent : t'.attemptStart ≤ sent.timeSent := by
      rw [hattempt, htime]
      refine le_trans ?_ (hafter _ (Nat.le_succ _))
      split
      · exact hstart
      · exact hcurrent
    rw [hidle.budget_eq, budget_of_initSent hstate hsent, Nat.add_comm]
    exact (Nat.add_le_add_right (Nat.sub_le _ _) 1).trans (Nat.le_add_right _ _)

theorem queuePacket_ok {packetType : MessageType} {src : Bytes}
    (call : t.queuePacket packetType src w = .ok (t', w')) :
    ∃ q, t' = { t with packetQueue := q } ∧ w'.clock = w.clock ∧ w.reads ≤ w'.reads := by
  rw [queuePacket] at call
  split at call
  · cases call
    exact ⟨_, rfl, rfl, le_rfl⟩
  · obtain ⟨⟨dropped, t₁, w₁⟩, hdrop, call⟩ := bind_ok_iff.mp call
    obtain ⟨⟨q, pool⟩, -, call⟩ := bind_ok_iff.mp call
    obtain ⟨⟨n, q', pool'⟩, -, hdrop⟩ := bind_ok_iff.mp hdrop
    cases hdrop
    cases call
    exact ⟨q, rfl, rfl, Nat.le_succ _⟩

theorem encapsulate_budget {time : ℕ} (hidle : t.Idle) (hafter : After time w)
    (hstart : t.attemptStart ≤ time)
    (hcurrent : t.timers.timeStarted + t.timers.timers .timeCurrent ≤ time)
    (call : t.encapsulate [] dstLen w = .ok (r, t', w')) :
    (sends r).toNat + t'.budget ≤ t.budget + 1 ∧
      t'.timers.persistentKeepalive = t.timers.persistentKeepalive := by
  obtain ⟨⟨written, t₁, w₁⟩, hseal, hsend⟩ := bind_ok_iff.mp call
  rcases sealWithCurrent_ok hseal with ⟨rfl, rfl, rfl, -⟩ | ⟨packet, s, rfl, -, -, rfl, -⟩
  · obtain ⟨⟨t₂, w₂⟩, hqueue, hformat⟩ := bind_ok_iff.mp hsend
    obtain ⟨q, rfl, hclock, hreads⟩ := queuePacket_ok hqueue
    have hafter₂ : After time w₂ := fun n hn => hclock ▸ hafter n (hreads.trans hn)
    obtain ⟨hbudget, hkeepalive⟩ :=
      formatHandshakeInitiation_budget (t := { t₁ with packetQueue := q }) hidle hafter₂ hstart
        hcurrent hformat
    exact ⟨hbudget.trans (Nat.le_succ _), hkeepalive⟩
  · cases hsend
    refine ⟨?_, rfl⟩
    have hidle' : ((t.setSession t.current { s with sendingKeyCounter := s.sendingKeyCounter + 1 }).tickSent
        []).Idle := hidle
    rw [hidle'.budget_eq, hidle.budget_eq]
    change 1 + (maxRetries + 1 + 0) ≤ _
    omega

theorem sub_div_succ_le {n d a b : ℕ} (hd : 0 < d) (ha : a < n * d) (hab : a + d ≤ b) :
    n - b / d + 1 ≤ n - a / d := by
  have hlt : a / d < n := Nat.div_lt_of_lt_mul (by rwa [Nat.mul_comm])
  have hstep : a / d + 1 ≤ b / d := by
    rw [← Nat.add_div_right a hd]
    exact Nat.div_le_div_right hab
  omega

/-- A retry costs one: it comes a timeout after the initiation before, and before the attempt is
over. -/
theorem retry_budget {sent : HandshakeInitSentState K} {time : ℕ}
    (hstate : t.handshake.state = .initSent sent) (hsent : sent.timeSent ≤ time)
    (hstart : t.attemptStart ≤ time) (hyoung : time < t.attemptStart + rekeyAttemptTime)
    (hdue : sent.timeSent + rekeyTimeout ≤ w.clock w.reads) (hafter : After time w)
    (hmono : Monotone w.clock)
    (call : t.formatHandshakeInitiation dstLen true w = .ok (r, t', w')) :
    (sends r).toNat + t'.budget ≤ t.budget ∧
      t'.timers.persistentKeepalive = t.timers.persistentKeepalive := by
  have hawake : t.handshake.state ≠ .expired := by
    rw [hstate]
    nofun
  have hprogress : t.handshake.isInProgress = true := by rw [Handshake.isInProgress, hstate]
  rcases formatHandshakeInitiation_awake hawake call with
    ⟨hr, rfl, rfl⟩ | ⟨packet, sent', rfl, hstate', htime, hkeepalive, hattempt⟩
  · refine ⟨?_, rfl⟩
    cases r with
    | writeToNetwork packet => exact absurd rfl (hr packet)
    | _ => exact (Nat.zero_add _).le
  · refine ⟨?_, hkeepalive⟩
    have hattempt : t'.attemptStart = t.attemptStart := by
      rw [hattempt, hprogress]
      rfl
    have hsent' : t'.attemptStart ≤ sent'.timeSent := by
      rw [hattempt, htime]
      exact hstart.trans (hafter _ (Nat.le_succ _))
    have hlater : sent.timeSent + rekeyTimeout ≤ sent'.timeSent := by
      rw [htime]
      exact hdue.trans (hmono (Nat.le_succ _))
    rw [budget_of_initSent hstate' hsent', hattempt, budget, hstate]
    change 1 + _ ≤ _
    rw [Nat.add_comm]
    dsimp only
    split
    · have hage : sent.timeSent - t.attemptStart < rekeyAttemptTime := by omega
      exact sub_div_succ_le (by decide) hage (by omega)
    · exact Nat.add_le_add_right (Nat.sub_le _ _) 1

theorem due_budget {now : ℕ} {handshake keepalive : Bool} {timers : Timers} (hidle : t.Idle)
    (hquiet : t.timers.persistentKeepalive = 0)
    (hdue : t.timers.due now = .ok (handshake, keepalive, timers)) :
    timers.timeStarted = t.timers.timeStarted ∧ timers.timers = t.timers.timers ∧
      timers.persistentKeepalive = 0 ∧
      { t with timers := timers }.budget + keepalive.toNat ≤ t.budget := by
  obtain ⟨wantHandshake, wantKeepalive, rfl, hflag⟩ := due_ok hquiet hdue
  refine ⟨rfl, rfl, hquiet, ?_⟩
  have hidle' : Idle { t with timers := { t.timers with
      wantHandshake := wantHandshake, wantKeepalive := wantKeepalive } } := hidle
  rw [hidle'.budget_eq, hidle.budget_eq, Nat.add_assoc]
  exact Nat.add_le_add_left hflag _

theorem expire_ok (call : t.expire w = .ok (r, t', w')) :
    r = .err .connectionExpired ∧ t'.handshake.state = .expired ∧
      t'.timers.persistentKeepalive = t.timers.persistentKeepalive := by
  obtain ⟨⟨t₁, w₁⟩, hclear, hresult⟩ := bind_ok_iff.mp call
  obtain ⟨⟨t₂, w₂⟩, hqueue, hclear⟩ := bind_ok_iff.mp hclear
  obtain ⟨⟨q, pool⟩, -, hqueue⟩ := bind_ok_iff.mp hqueue
  cases hqueue
  cases hclear
  cases hresult
  exact ⟨rfl, rfl, rfl⟩

theorem updateTimers_budget (h : t.Punctual w) (hquiet : t.timers.persistentKeepalive = 0)
    (call : t.updateTimers dstLen w = .ok (r, t', w')) :
    (sends r).toNat + t'.budget ≤ t.budget ∧ t'.timers.persistentKeepalive = 0 := by
  obtain ⟨t₁, hattempt, hcurrent, hticked⟩ := updateTimers_ticked call
  have hquiet₁ := hattempt.persistentKeepalive.trans hquiet
  rw [← hattempt.budget]
  have hmono := h.onTime.fresh.monotone
  have hafter : After (w.clock w.reads) w.now.2 := fun n hn => hmono ((Nat.le_succ _).trans hn)
  have hnow : t₁.timers.timeStarted + t.elapsed w = w.clock w.reads := by
    rw [hattempt.timeStarted]
    exact Nat.add_sub_cancel' h.started_le
  have hstart : t₁.attemptStart ≤ w.clock w.reads := by
    have hle := h.onTime.timer_le .timeLastHandshakeStarted
    have hstarted := h.started_le
    rw [hattempt.start, attemptStart]
    omega
  have hcurrent' : t₁.timers.timeStarted + t₁.timers.timers .timeCurrent ≤ w.clock w.reads := by
    rw [hcurrent]
    exact hnow.le
  cases hticked with
  | expired state => exact ⟨(Nat.zero_add _).le, hquiet₁⟩
  | wait => exact ⟨(Nat.zero_add _).le, hquiet₁⟩
  | giveUp hexpire =>
    obtain ⟨rfl, hstate, hkeepalive⟩ := expire_ok hexpire
    refine ⟨?_, hkeepalive.trans hquiet₁⟩
    have hspent : t'.budget = 0 := by rw [budget, hstate]
    rw [hspent]
    exact Nat.zero_le _
  | @retry sent _ _ _ hsent hstarted hyoung hdue hformat =>
    have hbefore := h.sent_le sent (hattempt.state ▸ hsent)
    have hover : w.clock w.reads < t₁.attemptStart + rekeyAttemptTime := by
      rw [attemptStart]
      omega
    have hlater : After (w.clock w.reads) w.now.2.now.2 :=
      fun n hn => hafter n ((Nat.le_succ _).trans hn)
    obtain ⟨hbudget, hkeepalive⟩ := retry_budget (w := w.now.2.now.2) hsent hbefore hstart hover
      (hdue.trans (hmono (Nat.le_succ _))) hlater hmono hformat
    exact ⟨hbudget, hkeepalive.trans hquiet₁⟩
  | @rekey _ _ _ keepalive timers hidle hdue hformat =>
    obtain ⟨htime, htimers, hquiet₂, hpaid⟩ := due_budget hidle hquiet₁ hdue
    obtain ⟨hbudget, hkeepalive⟩ := formatHandshakeInitiation_budget
      (t := { t₁ with timers := timers }) hidle hafter
      (by rw [attemptStart, htime, htimers]; exact hstart) (by rw [htime, htimers]; exact hcurrent')
      hformat
    exact ⟨hbudget.trans ((Nat.le_add_right _ _).trans hpaid), hkeepalive.trans hquiet₂⟩
  | @keepalive _ _ _ timers hidle hdue hencapsulate =>
    obtain ⟨htime, htimers, hquiet₂, hpaid⟩ := due_budget hidle hquiet₁ hdue
    obtain ⟨hbudget, hkeepalive⟩ := encapsulate_budget
      (t := { t₁ with timers := timers }) hidle hafter
      (by rw [attemptStart, htime, htimers]; exact hstart) (by rw [htime, htimers]; exact hcurrent')
      hencapsulate
    exact ⟨hbudget.trans hpaid, hkeepalive.trans hquiet₂⟩
  | rest hidle hdue =>
    obtain ⟨-, -, hquiet₂, hpaid⟩ := due_budget hidle hquiet₁ hdue
    exact ⟨(Nat.zero_add _).le.trans hpaid, hquiet₂⟩

/-! ### Runs without use -/

/-- No key of the tunnel opens the packet, or it is not expected. -/
def Refuses (t : Tunn K) (packet : Packet) (dstLen : ℕ) (w : World K N BYTES) : Prop :=
  match packet with
  | .data p => ∃ e t', t.decryptRawData p dstLen = .ok (.error e, t')
  | packet => ∃ e t' w', t.handleVerifiedPacket packet dstLen w = .ok (.err e, t', w')

/-- Nobody uses the tunnel: time passes, and the datagrams that arrive are refused. -/
def Unused (s : Tunn K × World K N BYTES) : Op N BYTES → Prop
  | .updateTimers _ | .dropExpiredQueuedPackets | .clearPacketQueue | .sharePool _ => True
  | .handleVerifiedPacket datagram dstLen => handshakeRespSz ≤ dstLen ∧
      ∀ packet, parseIncomingPacket datagram = .ok packet → s.1.Refuses packet dstLen s.2
  | .handleVerifiedRelayPacket datagram dstLen =>
    ∀ packet, parseIncomingPacket datagram = .ok packet →
      ∃ e t', s.1.handleVerifiedRelayPacket packet dstLen = .ok (.error e, t')
  | _ => False

def Reply.sends : Reply → Bool
  | .tunn r => Tunn.sends r
  | .relay _ => false

theorem Refuses.unchanged {packet : Packet} (h : t.Refuses packet dstLen w)
    (hdst : handshakeRespSz ≤ dstLen)
    (call : t.handleVerifiedPacket packet dstLen w = .ok (r, t', w')) :
    t' = t ∧ w' = w ∧ sends r = false := by
  cases packet with
  | data p =>
    obtain ⟨e, t₁, hrefused⟩ := h
    cases handleVerifiedPacket_cases call with
    | reject hdecrypt => exact ⟨decryptRawData_error hdecrypt, rfl, rfl⟩
    | receive hdecrypt => cases hdecrypt.symm.trans hrefused
  | _ =>
    obtain ⟨e, t₁, w₁, herr⟩ := h
    cases call.symm.trans herr
    rcases handleVerifiedPacket_err hdst herr with ⟨rfl, rfl⟩ | ⟨p, plaintext, t₂, hp, -⟩
    · exact ⟨rfl, rfl, rfl⟩
    · cases hp

variable {s s' : Tunn K × World K N BYTES}

theorem step_budget {op : Op N BYTES} {reply : Reply} (hunused : Unused s op)
    (h : s.1.Punctual s.2) (hquiet : s.1.timers.persistentKeepalive = 0)
    (hstep : step s op = .ok (reply, s')) :
    reply.sends.toNat + s'.1.budget ≤ s.1.budget ∧ s'.1.timers.persistentKeepalive = 0 := by
  cases op with
  | updateTimers dstLen =>
    obtain ⟨⟨r, t, w⟩, hcall, hstep⟩ := bind_ok_iff.mp hstep
    cases hstep
    exact updateTimers_budget h hquiet hcall
  | dropExpiredQueuedPackets =>
    obtain ⟨⟨dropped, t, w⟩, hcall, hstep⟩ := bind_ok_iff.mp hstep
    obtain ⟨⟨n, q, pool⟩, -, hcall⟩ := bind_ok_iff.mp hcall
    cases hcall
    cases hstep
    exact ⟨(Nat.zero_add _).le, hquiet⟩
  | clearPacketQueue =>
    obtain ⟨⟨t, w⟩, hcall, hstep⟩ := bind_ok_iff.mp hstep
    obtain ⟨⟨q, pool⟩, -, hcall⟩ := bind_ok_iff.mp hcall
    cases hcall
    cases hstep
    exact ⟨(Nat.zero_add _).le, hquiet⟩
  | sharePool pool =>
    cases hstep
    exact ⟨(Nat.zero_add _).le, hquiet⟩
  | handleVerifiedPacket datagram dstLen =>
    obtain ⟨hdst, hrefuses⟩ := hunused
    simp only [step] at hstep
    cases hparse : parseIncomingPacket datagram with
    | error e =>
      simp only [hparse] at hstep
      cases hstep
      exact ⟨(Nat.zero_add _).le, hquiet⟩
    | ok packet =>
      simp only [hparse] at hstep
      obtain ⟨⟨r, t, w⟩, hcall, hstep⟩ := bind_ok_iff.mp hstep
      cases hstep
      obtain ⟨rfl, rfl, hr⟩ := (hrefuses packet hparse).unchanged hdst hcall
      refine ⟨?_, hquiet⟩
      change (sends r).toNat + _ ≤ _
      rw [hr]
      exact (Nat.zero_add _).le
  | handleVerifiedRelayPacket datagram dstLen =>
    simp only [step] at hstep
    cases hparse : parseIncomingPacket datagram with
    | error e =>
      simp only [hparse] at hstep
      cases hstep
      exact ⟨(Nat.zero_add _).le, hquiet⟩
    | ok packet =>
      simp only [hparse] at hstep
      obtain ⟨⟨r, t⟩, hcall, hstep⟩ := bind_ok_iff.mp hstep
      obtain ⟨e, t₁, herr⟩ := hunused packet hparse
      cases hcall.symm.trans herr
      cases hstep
      rw [handleVerifiedRelayPacket_err hcall]
      exact ⟨(Nat.zero_add _).le, hquiet⟩
  | _ => exact hunused.elim

theorem step_punctual {op : Op N BYTES} {reply : Reply} (h : s.1.Punctual s.2)
    (hstep : step s op = .ok (reply, s')) : s'.1.Punctual s'.2 := by
  obtain ⟨ls, hpath, -⟩ := step_path hstep
  exact hpath.invariant Effect.punctual h

theorem new_punctual {clock : ℕ → ℕ} (hclock : Monotone clock) (staticPrivate : K.Secret)
    (peerStaticPublic : Bytes) (keepalive : Option ℕ) (index : ℕ) (stamper : TimeStamper)
    (secrets : ℕ → K.Secret) (pool : PacketPool N BYTES) :
    let s := Tunn.new staticPrivate peerStaticPublic keepalive index stamper
      (World.start clock secrets pool)
    s.1.Punctual s.2 where
  onTime := new_onTime hclock _ _ _ _ _ _ _
  started_le := hclock (Nat.le_succ 0)
  sent_le := nofun

def datagramsSent (replies : List Reply) : ℕ := replies.countP Reply.sends

/-- Whatever a tunnel without persistent keepalives has been through, once nobody uses it any more
it sends no more datagrams than one attempt to rekey takes and one keepalive, however long the
timers go on and whatever refused datagrams arrive. -/
theorem run_falls_silent {clock : ℕ → ℕ} (hclock : Monotone clock) {staticPrivate : K.Secret}
    {peerStaticPublic : Bytes} {keepalive : Option ℕ} {index : ℕ} {stamper : TimeStamper}
    {secrets : ℕ → K.Secret} {pool : PacketPool N BYTES} {used unused : List (Op N BYTES)}
    {replies replies' : List Reply}
    (hused : Machine.run step
      (Tunn.new staticPrivate peerStaticPublic keepalive index stamper
        (World.start clock secrets pool)) used = .ok (replies, s))
    (hquiet : s.1.timers.persistentKeepalive = 0) (hunused : Machine.Along step Unused s unused)
    (hrun : Machine.run step s unused = .ok (replies', s')) :
    datagramsSent replies' ≤ maxRetries + 2 := by
  have hpunctual : s.1.Punctual s.2 :=
    Machine.run_invariant (I := fun s : Tunn K × World K N BYTES => s.1.Punctual s.2)
      (fun _ _ _ _ _ h hstep => step_punctual h hstep) hused
      (new_punctual hclock _ _ _ _ _ _ _)
  obtain ⟨hspent, -⟩ := Machine.run_history_along (I := fun past s =>
      datagramsSent past + s.1.budget ≤ maxRetries + 2 ∧ s.1.Punctual s.2 ∧
        s.1.timers.persistentKeepalive = 0) []
    (fun past s op reply s' hop ⟨hpast, h, hquiet⟩ hstep => by
      obtain ⟨hbudget, hquiet'⟩ := step_budget hop h hquiet hstep
      refine ⟨?_, step_punctual h hstep, hquiet'⟩
      have hone : datagramsSent (past ++ [reply]) = datagramsSent past + reply.sends.toNat := by
        rw [datagramsSent, datagramsSent, List.countP_append, List.countP_singleton]
        cases reply.sends <;> rfl
      omega)
    hunused hrun ⟨(Nat.zero_add _).le.trans s.1.budget_le, hpunctual, hquiet⟩
  exact (Nat.le_add_right _ _).trans hspent

end Tunn

namespace Sample

def lonely : Tunn Crypto.sample × World Crypto.sample 8 8192 :=
  Tunn.new initiatorSecret (Crypto.sample.publicKey responderSecret) none 1 ⟨0, 0⟩
    (.start (fun n => n * 1000000000) (fun n => (n + 21 : ℕ)) (.new 8 8192 .alloc))

def ticks : List (Tunn.Op 8 8192) := List.replicate 40 (.updateTimers maxPacketSize)

end Sample

theorem Tunn.run_falls_silent_unanswered :
    ∃ replies s replies' s', Machine.run step Sample.lonely [.encapsulate [1, 2, 3] maxPacketSize] =
        .ok (replies, s) ∧ Machine.run step s Sample.ticks = .ok (replies', s') ∧
      s'.1.isExpired ∧ datagramsSent replies' ≤ maxRetries + 2 := by
  have hcheck : okAnd (fun (_, s) => s.1.timers.persistentKeepalive = 0 &&
      okAnd (fun (_, s') => s'.1.isExpired) (Machine.run step s Sample.ticks))
      (Machine.run step Sample.lonely [.encapsulate [1, 2, 3] maxPacketSize]) = true := by
    decide +kernel
  obtain ⟨⟨replies, s⟩, hused, hcheck⟩ := exists_of_okAnd hcheck
  rw [Bool.and_eq_true] at hcheck
  obtain ⟨⟨replies', s'⟩, hrun, hexpired⟩ := exists_of_okAnd hcheck.2
  have hclock : Monotone fun n => n * 1000000000 := fun a b hab => Nat.mul_le_mul_right _ hab
  have hunused : Machine.Along step Unused s Sample.ticks := by
    refine Machine.along_of_forall fun s op hop => ?_
    rw [List.eq_of_mem_replicate hop]
    trivial
  exact ⟨replies, s, replies', s', hused, hrun, hexpired,
    run_falls_silent hclock hused (of_decide_eq_true hcheck.1) hunused hrun⟩

end Tendrilix.Noise
