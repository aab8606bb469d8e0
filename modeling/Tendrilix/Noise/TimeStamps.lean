import Tendrilix.Device.Model
import Tendrilix.Noise.CurrentSession
import Tendrilix.Noise.TunnelRoom

/-!
# Stamps are never ahead of the clock

Timers are stamped with a current time that only `update_timers` and the restart of an expired
tunnel read from the clock. No stamp is later than it, and it is no later than the clock.
-/

namespace Tendrilix.Noise

variable {K : Crypto} {N BYTES : ℕ}

def Timers.Ordered (t : Timers) : Prop := ∀ name, t.timers name ≤ t.timers .timeCurrent

theorem Timers.Ordered.stamp {t t' : Timers} (h : t.Ordered)
    (hstamped : ∀ name, t'.timers name = t.timers name ∨ t'.timers name = t.timers .timeCurrent) :
    t'.Ordered := by
  have hcurrent : t'.timers .timeCurrent = t.timers .timeCurrent := by
    rcases hstamped .timeCurrent with hsame | hsame
    · exact hsame
    · exact hsame
  intro name
  rw [hcurrent]
  rcases hstamped name with hsame | hnow
  · rw [hsame]
    exact h name
  · rw [hnow]

namespace Tunn

variable {t t' : Tunn K} {w w' : World K N BYTES}

/-- The invariant of runs. That the current time is not ahead of the clock is part of `Freshest`. -/
structure OnTime (t : Tunn K) (w : World K N BYTES) : Prop where
  fresh : Freshest t w
  ordered : t.timers.Ordered

theorem OnTime.timer_le (h : t.OnTime w) (name : TimerName) :
    t.timers.timers name ≤ w.clock w.reads - t.timers.timeStarted :=
  (h.ordered name).trans h.fresh.timeCurrent_le

theorem OnTime.stamp_le (h : t.OnTime w) (i : Fin 3) :
    t.timers.sessionTimers i ≤ w.clock w.reads - t.timers.timeStarted :=
  (h.fresh.stamp_le i).trans h.fresh.timeCurrent_le

theorem Installed.ordered {s : Session} (hinst : Installed t s t') (h : t.timers.Ordered) :
    t'.timers.Ordered := h.stamp hinst.stamped

theorem Effect.ordered {l : Option Packet} (effect : Effect t w l t' w') (hfresh : Freshest t w)
    (h : t.timers.Ordered) : t'.timers.Ordered := by
  cases effect with
  | timers same => exact h.stamp same.stamped
  | observe =>
    intro name
    change Function.update t.timers.timers .timeCurrent (w.now.1 - t.timers.timeStarted) name ≤
      Function.update t.timers.timers .timeCurrent (w.now.1 - t.timers.timeStarted) .timeCurrent
    rw [Function.update_self, Function.update_apply]
    split
    · exact le_rfl
    · exact (h name).trans hfresh.timeCurrent_le
  | clearTimers => exact fun _ => le_rfl
  | expireSessions _ call =>
    rw [updateSessionTimers_ok call]
    exact h
  | encrypt call =>
    rcases sealWithCurrent_ok call with ⟨-, rfl, -⟩ | ⟨packet, s, -, -, -, rfl, -⟩
    · exact h
    · exact h
  | respond call => exact Installed.ordered (installResponder_installed _ _) h
  | conclude call sent => exact Installed.ordered (installInitiator_installed _ _) h
  | reject _ call =>
    rw [decryptRawData_error call]
    exact h
  | receive _ _ call =>
    have hsame := t.timers.tick_sameClock (show TimerName.timeLastPacketReceived ≠ _ by decide)
    rw [decryptRawData_timers call]
    exact h.stamp hsame.stamped
  | _ => exact h

theorem Effect.onTime {l : Option Packet} (effect : Effect t w l t' w') (h : t.OnTime w) :
    t'.OnTime w' := ⟨Effect.freshest effect h.fresh, Effect.ordered effect h.fresh h.ordered⟩

/-! ### Every subtraction is of an earlier time -/

theorem OnTime.updateTimers_avoids (h : t.OnTime w) (dstLen : ℕ) :
    Avoids Fault.durationUnderflow (t.updateTimers dstLen w) :=
  Tunn.updateTimers_avoids Fault.measured_duration nofun
    fun _ => ⟨h.timer_le, h.stamp_le⟩

theorem OnTime.timeSinceLastHandshake_avoids (h : t.OnTime w) :
    Avoids Fault.durationUnderflow (t.timeSinceLastHandshake w) := by
  rw [timeSinceLastHandshake]
  split
  · dsimp only
    split
    · rename_i hlate
      exact absurd (h.timer_le .timeSessionEstablished) (Nat.not_le.mpr hlate)
    · exact .ok _
  · exact .ok _

theorem step_avoids {s : Tunn K × World K N BYTES} (h : s.1.OnTime s.2) (op : Op N BYTES) :
    Avoids Fault.durationUnderflow (step s op) := by
  have hf := Fault.measured_duration
  have hother : Fault.durationUnderflow ≠ .destinationBufferTooSmall := by decide
  cases op with
  | encapsulate src dstLen =>
    exact .bind (encapsulateWithType_avoids hf _ _ _ (absurd · hother)) fun _ _ => .ok _
  | encapsulateRelay src dstLen =>
    exact .bind (encapsulateWithType_avoids hf _ _ _ (absurd · hother)) fun _ _ => .ok _
  | flushQueuedPacket dstLen =>
    exact .bind (flushQueuedPacket_avoids hf _ _ (by decide)) fun _ _ => .ok _
  | updateTimers dstLen => exact .bind (h.updateTimers_avoids dstLen) fun _ _ => .ok _
  | formatHandshakeInitiation dstLen forceResend =>
    exact .bind (formatHandshakeInitiation_avoids hf _ _ _ _) fun _ _ => .ok _
  | dropExpiredQueuedPackets =>
    refine .bind (.bind ?_ fun _ _ => .ok _) fun _ _ => .ok _
    exact s.1.packetQueue.dropExpired_avoids hf _ _
  | clearPacketQueue => exact .bind (clearPacketQueue_avoids hf _ _) fun _ _ => .ok _
  | setPersistentKeepalive keepalive => exact .ok _
  | handleVerifiedPacket datagram dstLen =>
    rw [step]
    split
    · exact .ok _
    · exact .bind (handleVerifiedPacket_avoids hf _ _ (absurd · hother) (absurd · hother)) fun _ _ => .ok _
  | handleVerifiedRelayPacket datagram dstLen =>
    rw [step]
    split
    · exact .ok _
    · exact .bind (handleVerifiedRelayPacket_avoids hf _ (absurd · hother)) fun _ _ => .ok _
  | sharePool pool => exact .ok _

theorem step_onTime (s : Tunn K × World K N BYTES) (op : Op N BYTES) (reply : Reply)
    (s' : Tunn K × World K N BYTES) (h : s.1.OnTime s.2) (hstep : step s op = .ok (reply, s')) :
    s'.1.OnTime s'.2 := by
  obtain ⟨ls, hpath, -⟩ := step_path hstep
  exact hpath.invariant Effect.onTime h

theorem new_onTime {clock : ℕ → ℕ} (hclock : Monotone clock) (staticPrivate : K.Secret)
    (peerStaticPublic : Bytes) (keepalive : Option ℕ) (index : ℕ) (stamper : TimeStamper)
    (secrets : ℕ → K.Secret) (pool : PacketPool N BYTES) :
    let s := Tunn.new staticPrivate peerStaticPublic keepalive index stamper
      (World.start clock secrets pool)
    s.1.OnTime s.2 where
  fresh := new_freshest hclock _ _ _ _ _ _ _
  ordered := fun _ => le_rfl

/-- Under a clock that does not run backwards, no timer and no session stamp is ever ahead of the current
time, and the current time is never ahead of the clock. So no subtraction of durations panics, in
any call of any run or when the age of the handshake is asked for after it. -/
theorem run_on_time {clock : ℕ → ℕ} (hclock : Monotone clock) (staticPrivate : K.Secret)
    (peerStaticPublic : Bytes) (keepalive : Option ℕ) (index : ℕ) (stamper : TimeStamper)
    (secrets : ℕ → K.Secret) (pool : PacketPool N BYTES) (ops : List (Op N BYTES)) :
    let run := Machine.run step
      (Tunn.new staticPrivate peerStaticPublic keepalive index stamper
        (World.start clock secrets pool)) ops
    run ≠ .error .durationUnderflow ∧
      ∀ replies t w, run = .ok (replies, t, w) →
        (∀ name, t.timers.timers name ≤ t.timers.timers .timeCurrent) ∧
        (∀ i, t.timers.sessionTimers i ≤ t.timers.timers .timeCurrent) ∧
        t.timers.timers .timeCurrent ≤ w.clock w.reads - t.timers.timeStarted ∧
        t.timeSinceLastHandshake w ≠ .error .durationUnderflow := by
  have hnew := new_onTime hclock staticPrivate peerStaticPublic keepalive index stamper secrets pool
  refine ⟨Machine.run_avoids (fun s op hs => step_avoids hs op) step_onTime hnew, ?_⟩
  intro replies t w hrun
  have hs : t.OnTime w :=
    Machine.run_invariant (I := fun s : Tunn K × World K N BYTES => s.1.OnTime s.2)
      (fun s op reply s' _ hs hstep => step_onTime s op reply s' hs hstep) hrun hnew
  exact ⟨hs.ordered, hs.fresh.stamp_le, hs.fresh.timeCurrent_le, hs.timeSinceLastHandshake_avoids⟩

theorem run_on_time_responder :
    ∃ replies t w, Machine.run step Sample.responder Sample.ops = .ok (replies, t, w) ∧
      t.currentSession.isSome ∧ t.timeSinceLastHandshake w ≠ .error .durationUnderflow := by
  have hlive : okAnd (fun (_, t, _) => t.currentSession.isSome)
      (Machine.run step Sample.responder Sample.ops) = true := by decide +kernel
  obtain ⟨⟨replies, t, w⟩, hrun, hlive⟩ := exists_of_okAnd hlive
  have hclock : Monotone fun n => n * 1000 := fun a b hab => Nat.mul_le_mul_right 1000 hab
  exact ⟨replies, t, w, hrun, hlive, ((run_on_time hclock _ _ _ _ _ _ _ _).2 _ _ _ hrun).2.2.2⟩

end Tunn

end Tendrilix.Noise
