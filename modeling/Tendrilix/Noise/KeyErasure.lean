import Tendrilix.Noise.Quiescence
import Tendrilix.Noise.SessionRing

/-!
# Keys that are not renewed are erased

No session outlives the last time that one was established by more than its own lifetime, and a
tunnel that is given up forgets the handshakes it was waiting for. So three lifetimes after the
last session the timers leave no key behind.
-/

namespace Tendrilix.Noise.Tunn

variable {K : Crypto} {N BYTES : ℕ} {t t' : Tunn K} {w w' : World K N BYTES} {dstLen : ℕ}
  {r : TunnResult}

structure Erasable (t : Tunn K) (w : World K N BYTES) : Prop where
  onTime : t.OnTime w
  live_le : ∀ i, (t.sessions i).isSome →
    t.timers.sessionTimers i ≤ t.timers.timers .timeSessionEstablished
  expired : t.handshake.state = .expired → t.handshake.previous = .expired

theorem installResponder_established (t : Tunn K) (s : Session) :
    (t.installResponder s).timers.timers .timeSessionEstablished = t.timers.timers .timeCurrent := by
  rw [installResponder, setCurrentSession_timers]
  rfl

theorem installInitiator_established (t : Tunn K) (s : Session) :
    (t.installInitiator s).timers.timers .timeSessionEstablished = t.timers.timers .timeCurrent := by
  rw [installInitiator, setCurrentSession_timers]
  rfl

theorem Installed.live_le {s : Session} (hinst : Installed t s t')
    (hestablished : t'.timers.timers .timeSessionEstablished = t.timers.timers .timeCurrent)
    (hstamps : ∀ i, t.timers.sessionTimers i ≤ t.timers.timers .timeCurrent) (i : Fin 3) :
    t'.timers.sessionTimers i ≤ t'.timers.timers .timeSessionEstablished := by
  rw [hestablished, hinst.stamps_eq, Function.update_apply]
  split
  · exact le_rfl
  · exact hstamps i

theorem Keeps.live_le (hkeeps : t.Keeps t') (h : t.Erasable w)
    (hestablished : t'.timers.timers .timeSessionEstablished =
        t.timers.timers .timeSessionEstablished)
    (i : Fin 3) (hlive : (t'.sessions i).isSome) :
    t'.timers.sessionTimers i ≤ t'.timers.timers .timeSessionEstablished := by
  obtain ⟨session', hs'⟩ := Option.isSome_iff_exists.mp hlive
  obtain ⟨session, hs, -⟩ := hkeeps.exists_of_some hs'
  rw [hkeeps.stamps_eq, hestablished]
  exact h.live_le i (Option.isSome_iff_exists.mpr ⟨session, hs⟩)

theorem Effect.live_le {l : Option Packet} (effect : Effect t w l t' w') (h : t.Erasable w)
    (i : Fin 3) (hlive : (t'.sessions i).isSome) :
    t'.timers.sessionTimers i ≤ t'.timers.timers .timeSessionEstablished := by
  have hstamps := h.onTime.fresh.stamp_le
  cases effect with
  | timers same =>
    rw [same.sessionTimers]
    rcases same.stamped .timeSessionEstablished with hsame | hnow
    · rw [hsame]
      exact h.live_le i hlive
    · rw [hnow]
      exact hstamps i
  | observe => exact h.live_le i hlive
  | clearTimers => exact (hstamps i).trans h.onTime.fresh.timeCurrent_le
  | expireSessions _ call =>
    rw [updateSessionTimers_ok call] at hlive ⊢
    dsimp only at hlive ⊢
    split at hlive
    · cases hlive
    · rename_i hyoung
      rw [if_neg hyoung]
      exact h.live_le i hlive
  | encrypt call =>
    have htimers : t'.timers = t.timers := by
      rcases sealWithCurrent_ok call with ⟨-, rfl, -⟩ | ⟨packet, s, -, hs, -, rfl, -⟩
      · rfl
      · rfl
    exact (sealWithCurrent_keeps call).live_le h (by rw [htimers]) i hlive
  | respond call =>
    refine Installed.live_le (installResponder_installed _ _) (installResponder_established _ _) ?_ i
    exact hstamps
  | conclude call sent =>
    refine Installed.live_le (installInitiator_installed _ _) (installInitiator_established _ _) ?_ i
    exact hstamps
  | reject _ call =>
    rw [decryptRawData_error call] at hlive ⊢
    exact h.live_le i hlive
  | receive _ hp call =>
    have htimers : t'.timers.timers .timeSessionEstablished =
        t.timers.timers .timeSessionEstablished := by
      rw [decryptRawData_timers call]
      rfl
    exact (decryptRawData_keeps call).live_le h htimers i hlive
  | _ => exact h.live_le i hlive

theorem Effect.expired {l : Option Packet} (effect : Effect t w l t' w') (h : t.Erasable w)
    (hstate : t'.handshake.state = .expired) : t'.handshake.previous = .expired := by
  cases effect with
  | expireHandshake => rfl
  | initiate call =>
    obtain ⟨sent, cookies, -, -, rfl, -⟩ := Handshake.formatHandshakeInitiation_ok call
    cases hstate
  | refuse call =>
    obtain ⟨-, rfl | ⟨_, _, _, -, -, rfl⟩⟩ := Handshake.receiveHandshakeInitialization_error call
    · exact h.expired hstate
    · cases hstate
  | respond call =>
    obtain ⟨timestamp, hash, chainingKey, keys, cookies, -, -, rfl, rfl, -⟩ :=
      Handshake.receiveHandshakeInitialization_ok call
    rw [(installResponder_installed _ _).handshake_eq] at hstate
    cases hstate
  | conclude call sent =>
    obtain ⟨state, keys, hexpected, -, rfl, ⟨rtt, rfl⟩, -⟩ :=
      Handshake.receiveHandshakeResponse_ok call
    rw [(installInitiator_installed _ _).handshake_eq] at hstate
    obtain ⟨-, ⟨-, hconsume⟩ | ⟨hprevious, hconsume⟩⟩ :=
      Handshake.expected_eq_some (h := { t.handshake with lastRtt := rtt }) hexpected
    · rw [hconsume] at hstate
      cases hstate
    · rw [hconsume] at hstate
      cases (h.expired hstate).symm.trans hprevious
  | encrypt call =>
    rcases sealWithCurrent_ok call with ⟨-, rfl, -⟩ | ⟨packet, s, -, hs, -, rfl, -⟩
    · exact h.expired hstate
    · exact h.expired hstate
  | expireSessions _ call =>
    rw [updateSessionTimers_ok call] at hstate ⊢
    exact h.expired hstate
  | reject _ call =>
    rw [decryptRawData_error call] at hstate ⊢
    exact h.expired hstate
  | receive _ hp call =>
    rw [decryptRawData_handshake call] at hstate ⊢
    exact h.expired hstate
  | _ => exact h.expired hstate

end Tendrilix.Noise.Tunn

namespace Tendrilix.Noise

end Tendrilix.Noise
