import Tendrilix.Noise.Effects
import Tendrilix.Noise.SessionSpec

/-!
# What the tunnel calls do to the sessions
-/

namespace Tendrilix.Noise

variable {K : Crypto} {N BYTES : ℕ}

theorem slotOf_mod (index : ℕ) : slotOf (index % nSessions) = slotOf index := by
  simp [slotOf]

namespace Tunn

variable {t t' : Tunn K} {w w' : World K N BYTES} {packetType : MessageType} {src : Bytes}
  {dstLen : ℕ}

theorem setSession_self {index : ℕ} {s : Session} (hs : t.sessions (slotOf index) = some s) :
    t.setSession index s = t := by
  rw [setSession, ← hs, Function.update_eq_self]

theorem sealWithCurrent_ok {r : Option Bytes}
    (call : t.sealWithCurrent packetType src dstLen w = .ok (r, t', w')) :
    (r = none ∧ t' = t ∧ w' = w ∧
      ∀ s, t.currentSession = some s → rejectAfterMessages ≤ s.sendingKeyCounter) ∨
    (∃ packet s, r = some packet ∧ t.currentSession = some s ∧
      s.sendingKeyCounter < rejectAfterMessages ∧
      t' = t.setSession t.current { s with sendingKeyCounter := s.sendingKeyCounter + 1 } ∧
      w' = { w with sealed := (s.sendingKey, s.sendingKeyCounter) :: w.sealed }) := by
  rw [sealWithCurrent] at call
  split at call
  · rename_i hnone
    cases call
    refine .inl ⟨rfl, rfl, rfl, fun s hs => ?_⟩
    exact nomatch hnone.symm.trans hs
  · rename_i s hs
    obtain ⟨⟨packet, s', w₁⟩, hseal, call⟩ := bind_ok_iff.mp call
    cases call
    rcases World.sealPacket_ok hseal with ⟨hr, hexhausted, hs', hw⟩ | ⟨packet, hr, hlt, hs', hw⟩
    · subst hs'
      refine .inl ⟨hr, setSession_self hs, hw, fun s₁ hs₁ => ?_⟩
      cases hs.symm.trans hs₁
      exact hexhausted
    · subst hs'
      exact .inr ⟨packet, s, hr, hs, hlt, rfl, hw⟩

theorem sealWithCurrent_error {f : Fault}
    (call : t.sealWithCurrent packetType src dstLen w = .error f) :
    f = .destinationBufferTooSmall ∧ dstLen < 32 + Session.paddedLen src.length := by
  rw [sealWithCurrent] at call
  split at call
  · cases call
  · rcases bind_error_iff.mp call with hseal | ⟨⟨packet, s', w₁⟩, -, call⟩
    · exact World.sealPacket_error hseal
    · cases call

theorem decryptRawData_error {p : Data} {e : WireGuardError}
    (call : t.decryptRawData p dstLen = .ok (.error e, t')) : t' = t := by
  rw [decryptRawData] at call
  dsimp only at call
  split at call
  · cases call
    rfl
  · rename_i s hs
    obtain ⟨⟨r, s'⟩, hreceive, call⟩ := bind_ok_iff.mp call
    cases r with
    | ok plaintext => cases call
    | error e =>
      cases call
      rw [Session.receivePacketData_error hreceive, setSession_self hs]

theorem decryptRawData_ok {p : Data} {plaintext : Bytes}
    (call : t.decryptRawData p dstLen = .ok (.ok plaintext, t')) :
    ∃ s s', t.sessions (slotOf p.receiverIdx) = some s ∧
      s.receivePacketData K p dstLen = .ok (.ok plaintext, s') ∧
      t' = (((t.setSession p.receiverIdx s').setCurrentSession p.receiverIdx).timerTick
        .timeLastPacketReceived).countReceived := by
  rw [decryptRawData] at call
  dsimp only at call
  split at call
  · cases call
  · rename_i s hs
    obtain ⟨⟨r, s'⟩, hreceive, call⟩ := bind_ok_iff.mp call
    cases r with
    | error e => cases call
    | ok plaintext =>
      cases call
      exact ⟨s, s', hs, hreceive, rfl⟩

section SetCurrent

variable (t : Tunn K) (index : ℕ)

@[simp] theorem setCurrentSession_sessions : (t.setCurrentSession index).sessions = t.sessions := by
  rw [setCurrentSession]
  split
  · rfl
  · split <;> rfl

@[simp] theorem setCurrentSession_timers : (t.setCurrentSession index).timers = t.timers := by
  rw [setCurrentSession]
  split
  · rfl
  · split <;> rfl

@[simp] theorem setCurrentSession_handshake :
    (t.setCurrentSession index).handshake = t.handshake := by
  rw [setCurrentSession]
  split
  · rfl
  · split <;> rfl

end SetCurrent

theorem decryptRawData_timers {p : Data} {dstLen : ℕ} {plaintext : Bytes}
    (call : t.decryptRawData p dstLen = .ok (.ok plaintext, t')) :
    t'.timers = t.timers.tick .timeLastPacketReceived := by
  obtain ⟨s, s', -, -, rfl⟩ := decryptRawData_ok call
  exact congrArg (Timers.tick · .timeLastPacketReceived) (setCurrentSession_timers _ _)

structure Installed (t : Tunn K) (s : Session) (t' : Tunn K) : Prop where
  handshake_eq : t'.handshake = t.handshake
  sessions_eq : t'.sessions = Function.update t.sessions (slotOf s.receivingIndex) (some s)
  stamps_eq : t'.timers.sessionTimers = Function.update t.timers.sessionTimers
    (slotOf s.receivingIndex) (t.timers.timers .timeCurrent)
  stamped : ∀ name, t'.timers.timers name = t.timers.timers name ∨
    t'.timers.timers name = t.timers.timers .timeCurrent
  timeStarted_eq : t'.timers.timeStarted = t.timers.timeStarted
  current_eq : (∀ i, t.timers.sessionTimers i ≤ t.timers.timers .timeCurrent) →
    t'.current = s.receivingIndex

theorem Installed.timeCurrent_eq {s : Session} (h : Installed t s t') :
    t'.timers.timers .timeCurrent = t.timers.timers .timeCurrent := by
  rcases h.stamped .timeCurrent with hsame | hsame
  · exact hsame
  · exact hsame

theorem setCurrentSession_current {index : ℕ}
    (hmax : ∀ i, t.timers.sessionTimers i ≤ t.timers.sessionTimers (slotOf index)) :
    (t.setCurrentSession index).current = index := by
  rw [setCurrentSession]
  split
  · assumption
  · rw [if_pos (.inr (hmax _))]

theorem installResponder_installed (t : Tunn K) (s : Session) :
    Installed t s (t.installResponder s) where
  handshake_eq := setCurrentSession_handshake _ _
  sessions_eq := setCurrentSession_sessions _ _
  stamps_eq := by
    rw [installResponder, setCurrentSession_timers]
    rfl
  stamped := by
    have hsame := (((Timers.SameClock.refl t.timers).tick
      (show TimerName.timeLastPacketReceived ≠ _ by decide)).tick
        (show TimerName.timeLastPacketSent ≠ _ by decide)).tick
          (show TimerName.timeSessionEstablished ≠ _ by decide)
    rw [installResponder, setCurrentSession_timers]
    exact hsame.stamped
  timeStarted_eq := by
    rw [installResponder, setCurrentSession_timers]
    rfl
  current_eq := by
    intro hle
    apply setCurrentSession_current
    intro i
    change Function.update t.timers.sessionTimers (slotOf s.receivingIndex)
        (t.timers.timers .timeCurrent) i ≤
      Function.update t.timers.sessionTimers (slotOf s.receivingIndex)
        (t.timers.timers .timeCurrent) (slotOf s.receivingIndex)
    rw [Function.update_self, Function.update_apply]
    split
    · exact le_rfl
    · exact hle i

theorem installInitiator_installed (t : Tunn K) (s : Session) :
    Installed t s (t.installInitiator s) where
  handshake_eq := setCurrentSession_handshake _ _
  sessions_eq := by
    rw [installInitiator, setCurrentSession_sessions, ← slotOf_mod]
    rfl
  stamps_eq := by
    rw [installInitiator, setCurrentSession_timers, ← slotOf_mod]
    rfl
  stamped := by
    have hsame := ((Timers.SameClock.refl t.timers).tick
      (show TimerName.timeLastPacketReceived ≠ _ by decide)).tick
        (show TimerName.timeSessionEstablished ≠ _ by decide)
    rw [installInitiator, setCurrentSession_timers]
    exact hsame.stamped
  timeStarted_eq := by
    rw [installInitiator, setCurrentSession_timers]
    rfl
  current_eq := by
    intro hle
    apply setCurrentSession_current
    intro i
    change Function.update t.timers.sessionTimers (slotOf (s.receivingIndex % nSessions))
        (t.timers.timers .timeCurrent) i ≤
      Function.update t.timers.sessionTimers (slotOf (s.receivingIndex % nSessions))
        (t.timers.timers .timeCurrent) (slotOf s.receivingIndex)
    rw [slotOf_mod, Function.update_self, Function.update_apply]
    split
    · exact le_rfl
    · exact hle i

def TooOld (t : Tunn K) (timeNow : ℕ) (i : Fin 3) : Prop :=
  rejectAfterTime < timeNow - t.timers.sessionTimers i

instance (t : Tunn K) (timeNow : ℕ) (i : Fin 3) : Decidable (t.TooOld timeNow i) :=
  inferInstanceAs (Decidable (_ < _))

theorem expireSlot_ok {timeNow : ℕ} {i : Fin 3} (call : expireSlot timeNow t i = .ok t') :
    t' = if t.TooOld timeNow i then
        { t with
          sessions := Function.update t.sessions i none
          timers := { t.timers with
            sessionTimers := Function.update t.timers.sessionTimers i timeNow } }
      else t := by
  rw [expireSlot] at call
  dsimp only at call
  split at call
  · cases call
  split at call
  · rename_i hold
    cases call
    exact (if_pos (show t.TooOld timeNow i from hold)).symm
  · rename_i hyoung
    cases call
    exact (if_neg (show ¬t.TooOld timeNow i from hyoung)).symm

theorem foldlM_expireSlot_ok {timeNow : ℕ} {l : List (Fin 3)} (hl : l.Nodup)
    (call : l.foldlM (expireSlot timeNow) t = .ok t') :
    t' = { t with
      sessions := fun i => if i ∈ l ∧ t.TooOld timeNow i then none else t.sessions i
      timers := { t.timers with
        sessionTimers := fun i =>
          if i ∈ l ∧ t.TooOld timeNow i then timeNow else t.timers.sessionTimers i } } := by
  induction l generalizing t with
  | nil =>
    cases call
    simp
  | cons a l ih =>
    obtain ⟨hna, hl⟩ := List.nodup_cons.mp hl
    rw [List.foldlM_cons] at call
    obtain ⟨t₁, hslot, call⟩ := bind_ok_iff.mp call
    rw [ih hl call]
    have hold : ∀ i ∈ l, t₁.TooOld timeNow i ↔ t.TooOld timeNow i := by
      intro i hi
      have hne : i ≠ a := fun h => hna (h ▸ hi)
      rw [expireSlot_ok hslot]
      split
      · simp [TooOld, Function.update_of_ne hne]
      · rfl
    have hcond : ∀ i, (i ∈ l ∧ t₁.TooOld timeNow i) ↔ (i ∈ l ∧ t.TooOld timeNow i) :=
      fun i => and_congr_right (hold i)
    simp only [hcond]
    rw [expireSlot_ok hslot]
    by_cases ha : t.TooOld timeNow a
    · rw [if_pos ha]
      congr 1
      · funext i
        by_cases hi : i = a
        · subst hi
          simp [hna, ha]
        · simp [hi]
      · congr 1
        funext i
        by_cases hi : i = a
        · subst hi
          simp [hna, ha]
        · simp [hi]
    · rw [if_neg ha]
      have hiff : ∀ i, (i ∈ a :: l ∧ t.TooOld timeNow i) ↔ (i ∈ l ∧ t.TooOld timeNow i) := by
        intro i
        rw [List.mem_cons]
        refine ⟨fun h => ⟨?_, h.2⟩, fun h => ⟨.inr h.1, h.2⟩⟩
        rcases h.1 with rfl | hi
        · exact absurd h.2 ha
        · exact hi
      simp only [hiff]

theorem updateSessionTimers_ok {timeNow : ℕ} (call : t.updateSessionTimers timeNow = .ok t') :
    t' = { t with
      sessions := fun i => if t.TooOld timeNow i then none else t.sessions i
      timers := { t.timers with
        sessionTimers := fun i =>
          if t.TooOld timeNow i then timeNow else t.timers.sessionTimers i } } := by
  rw [foldlM_expireSlot_ok (List.nodup_finRange 3) call]
  simp only [List.mem_finRange, true_and]

end Tunn

end Tendrilix.Noise
