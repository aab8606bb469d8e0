import Tendrilix.Noise.Run
import Tendrilix.Noise.TunnSpec

/-!
# The current session is the freshest one

`Freshest` is the invariant: whenever a session is live, the slot of the current index holds the
session of that index, and no live session has a later stamp. Stamps never lie in the future.
-/

namespace Tendrilix.Noise.Tunn

variable {K : Crypto} {N BYTES : ℕ} {t t' : Tunn K} {w w' : World K N BYTES}

structure Freshest (t : Tunn K) (w : World K N BYTES) : Prop where
  monotone : Monotone w.clock
  current : ∀ i s, t.sessions i = some s → ∃ c, t.currentSession = some c ∧
    c.receivingIndex = t.current ∧
    t.timers.sessionTimers i ≤ t.timers.sessionTimers (slotOf t.current)
  stamp_le : ∀ i, t.timers.sessionTimers i ≤ t.timers.timers .timeCurrent
  timeCurrent_le : t.timers.timers .timeCurrent ≤ w.clock w.reads - t.timers.timeStarted

/-- The invariant does not see the queue, the handshake, or timers that do not measure sessions. -/
theorem Freshest.congr (h : Freshest t w) (hclock : w'.clock = w.clock) (hreads : w.reads ≤ w'.reads)
    (hsessions : t'.sessions = t.sessions) (hcurrent : t'.current = t.current)
    (htimers : t.timers.SameClock t'.timers) : Freshest t' w' where
  monotone := hclock ▸ h.monotone
  current := by
    intro i s hs
    rw [hsessions] at hs
    rw [currentSession, hsessions, hcurrent, htimers.sessionTimers]
    exact h.current i s hs
  stamp_le := by
    intro i
    rw [htimers.sessionTimers, htimers.timeCurrent]
    exact h.stamp_le i
  timeCurrent_le := by
    rw [htimers.timeCurrent, htimers.timeStarted, hclock]
    exact h.timeCurrent_le.trans (Nat.sub_le_sub_right (h.monotone hreads) _)

theorem Freshest.setHandshake (h : Freshest t w) (handshake : Handshake K) :
    Freshest { t with handshake := handshake } w :=
  h.congr rfl le_rfl rfl rfl (.refl _)

theorem Freshest.timerTick (h : Freshest t w) {name : TimerName} (hname : name ≠ .timeCurrent) :
    Freshest (t.timerTick name) w :=
  h.congr rfl le_rfl rfl rfl (t.timers.tick_sameClock hname)

theorem Freshest.advance {timers : Timers} (h : Freshest t w)
    (hstarted : timers.timeStarted = t.timers.timeStarted)
    (hstamps : timers.sessionTimers = t.timers.sessionTimers)
    (hcurrent : timers.timers .timeCurrent = w.clock w.reads - t.timers.timeStarted) :
    Freshest { t with timers := timers } w.now.2 where
  monotone := h.monotone
  current := by
    intro i s hs
    obtain ⟨c, hc, hidx, hle⟩ := h.current i s hs
    exact ⟨c, hc, hidx, by rwa [hstamps]⟩
  stamp_le := by
    intro i
    rw [hstamps, hcurrent]
    exact (h.stamp_le i).trans h.timeCurrent_le
  timeCurrent_le := by
    rw [hcurrent, hstarted]
    exact Nat.sub_le_sub_right (h.monotone (Nat.le_succ _)) _

theorem Freshest.expire (h : Freshest t w)
    (call : t.updateSessionTimers (t.timers.timers .timeCurrent) = .ok t') : Freshest t' w := by
  rw [updateSessionTimers_ok call]
  refine ⟨h.monotone, ?_, ?_, h.timeCurrent_le⟩
  · intro i s hs
    dsimp only at hs
    split at hs
    · cases hs
    · rename_i hyoung
      obtain ⟨c, hc, hidx, hle⟩ := h.current i s hs
      -- The current session is no older than a live one, so it is not dropped either.
      have hkeep : ¬t.TooOld (t.timers.timers .timeCurrent) (slotOf t.current) := by
        rw [TooOld] at hyoung ⊢
        omega
      refine ⟨c, ?_, hidx, ?_⟩
      · exact (if_neg hkeep).trans hc
      · dsimp only
        rw [if_neg hyoung, if_neg hkeep]
        exact hle
  · intro i
    dsimp only
    split
    · exact le_rfl
    · exact h.stamp_le i

theorem Freshest.install {s : Session} (h : Freshest t w) (hinst : Installed t s t')
    (hclock : w'.clock = w.clock) (hreads : w.reads ≤ w'.reads) : Freshest t' w' where
  monotone := hclock ▸ h.monotone
  current := by
    intro i s' hs'
    rw [currentSession, hinst.current_eq h.stamp_le, hinst.sessions_eq, hinst.stamps_eq,
      Function.update_self, Function.update_self, Function.update_apply]
    refine ⟨s, rfl, rfl, ?_⟩
    split
    · exact le_rfl
    · exact h.stamp_le i
  stamp_le := by
    intro i
    rw [hinst.stamps_eq, hinst.timeCurrent_eq, Function.update_apply]
    split
    · exact le_rfl
    · exact h.stamp_le i
  timeCurrent_le := by
    rw [hinst.timeCurrent_eq, hinst.timeStarted_eq, hclock]
    exact h.timeCurrent_le.trans (Nat.sub_le_sub_right (h.monotone hreads) _)

theorem Freshest.setSession {index : ℕ} {s : Session} (h : Freshest t w) (s' : Session)
    (hs : t.sessions (slotOf index) = some s) (hidx : s'.receivingIndex = s.receivingIndex) :
    Freshest (t.setSession index s') w where
  monotone := h.monotone
  current := by
    intro i s₁ hs₁
    have hlive : ∃ s₀, t.sessions i = some s₀ := by
      by_cases hi : i = slotOf index
      · exact ⟨s, hi ▸ hs⟩
      · refine ⟨s₁, ?_⟩
        exact (Function.update_of_ne hi _ _).symm.trans hs₁
    obtain ⟨s₀, hs₀⟩ := hlive
    obtain ⟨c, hc, hcidx, hle⟩ := h.current i s₀ hs₀
    rw [currentSession] at hc ⊢
    change ∃ c, Function.update t.sessions (slotOf index) (some s') (slotOf t.current) = some c ∧
      c.receivingIndex = t.current ∧ _
    by_cases hslot : slotOf t.current = slotOf index
    · rw [hslot, hs] at hc
      cases hc
      rw [hslot, Function.update_self]
      exact ⟨s', rfl, hidx.trans hcidx, hslot ▸ hle⟩
    · rw [Function.update_of_ne hslot]
      exact ⟨c, hc, hcidx, hle⟩
  stamp_le := h.stamp_le
  timeCurrent_le := h.timeCurrent_le

theorem Freshest.setCurrentSession {index : ℕ} {s : Session} (h : Freshest t w)
    (hs : t.sessions (slotOf index) = some s) (hidx : s.receivingIndex = index) :
    Freshest (t.setCurrentSession index) w := by
  obtain ⟨c, hc, hcidx, -⟩ := h.current _ s hs
  rw [Tunn.setCurrentSession]
  split
  · exact h
  split
  · rename_i hswitch
    rcases hswitch with hnone | hle
    · cases hc.symm.trans hnone
    refine ⟨h.monotone, ?_, h.stamp_le, h.timeCurrent_le⟩
    intro i s' hs'
    obtain ⟨c', -, -, hle'⟩ := h.current i s' hs'
    exact ⟨s, hs, hidx, hle'.trans hle⟩
  · exact h

theorem Effect.freshest {l : Option Packet} (effect : Effect t w l t' w') (h : Freshest t w) :
    Freshest t' w' := by
  cases effect with
  | timers same => exact h.congr rfl le_rfl rfl rfl same
  | count => exact h.congr rfl le_rfl rfl rfl (.refl _)
  | read => exact h.congr rfl (Nat.le_succ _) rfl rfl (.refl _)
  | observe =>
    have hset : (t.timers.set .timeCurrent (w.now.1 - t.timers.timeStarted)).timers .timeCurrent =
        w.clock w.reads - t.timers.timeStarted := by
      simp [Timers.set, World.now]
    exact h.advance rfl rfl hset
  | clearTimers => exact h.advance rfl rfl rfl
  | expireSessions _ call => exact h.expire call
  | queue => exact h.congr rfl le_rfl rfl rfl (.refl _)
  | encrypt call =>
    rcases sealWithCurrent_ok call with ⟨-, rfl, rfl, -⟩ | ⟨packet, s, -, hs, -, rfl, rfl⟩
    · exact h
    · have h₁ := h.setSession { s with sendingKeyCounter := s.sendingKeyCounter + 1 } hs rfl
      exact h₁.congr rfl le_rfl rfl rfl (.refl _)
  | cookies => exact h.congr rfl le_rfl rfl rfl (.refl _)
  | expireHandshake => exact h.congr rfl le_rfl rfl rfl (.refl _)
  | initiate call =>
    obtain ⟨sent, cookies, -, -, rfl, rfl⟩ := Handshake.formatHandshakeInitiation_ok call
    exact h.congr rfl (Nat.le_add_right _ 2) rfl rfl (.refl _)
  | refuse call =>
    obtain ⟨rfl, -⟩ := Handshake.receiveHandshakeInitialization_error call
    exact h.congr rfl le_rfl rfl rfl (.refl _)
  | respond call =>
    obtain ⟨timestamp, hash, chainingKey, keys, cookies, -, -, rfl, rfl, rfl⟩ :=
      Handshake.receiveHandshakeInitialization_ok call
    exact (h.setHandshake _).install (installResponder_installed _ _) rfl le_rfl
  | conclude call sent =>
    obtain ⟨state, keys, -, -, rfl, -, rfl⟩ := Handshake.receiveHandshakeResponse_ok call
    rcases World.sealPacket_ok sent with ⟨hr, -⟩ | ⟨packet, -, -, rfl, rfl⟩
    · cases hr
    · exact (h.setHandshake _).install (installInitiator_installed _ _) rfl (Nat.le_succ _)
  | reject _ call =>
    rw [decryptRawData_error call]
    exact h
  | receive _ hp call =>
    obtain ⟨s, s', hs, hreceive, rfl⟩ := decryptRawData_ok call
    obtain ⟨hidx, -, -, v, cnt, -, rfl⟩ := Session.receivePacketData_ok hreceive
    have h₁ := h.setSession { s with receivingKeyCounter := { v with receiveCnt := cnt } } hs rfl
    have h₂ := h₁.setCurrentSession (Function.update_self ..) hidx.symm
    have h₃ := h₂.timerTick (show TimerName.timeLastPacketReceived ≠ .timeCurrent by decide)
    exact h₃.congr rfl le_rfl rfl rfl (.refl _)

theorem new_freshest {clock : ℕ → ℕ} (hclock : Monotone clock) (staticPrivate : K.Secret)
    (peerStaticPublic : Bytes) (keepalive : Option ℕ) (index : ℕ) (stamper : TimeStamper)
    (secrets : ℕ → K.Secret) (pool : PacketPool N BYTES) :
    let s := Tunn.new staticPrivate peerStaticPublic keepalive index stamper
      (World.start clock secrets pool)
    Freshest s.1 s.2 where
  monotone := hclock
  current := by
    intro i s hs
    cases hs
  stamp_le := fun i => le_rfl
  timeCurrent_le := Nat.zero_le _

theorem encapsulateWithType_ok {packetType : MessageType} {src : Bytes} {dstLen : ℕ} {r : TunnResult}
    (call : t.encapsulateWithType packetType src dstLen w = .ok (r, t', w')) :
    (∃ c packet, t.currentSession = some c ∧ c.sendingKeyCounter < rejectAfterMessages ∧
      r = .writeToNetwork packet ∧
      w'.sealed = (c.sendingKey, c.sendingKeyCounter) :: w.sealed ∧
      t'.packetQueue = t.packetQueue ∧ w'.pool = w.pool) ∨
    t.currentSession = none ∨
    ∃ c, t.currentSession = some c ∧ rejectAfterMessages ≤ c.sendingKeyCounter := by
  obtain ⟨⟨written, t₁, w₁⟩, hseal, call⟩ := bind_ok_iff.mp call
  rcases sealWithCurrent_ok hseal with ⟨rfl, rfl, rfl, hexhausted⟩ | ⟨packet, c, rfl, hc, hlt, rfl, rfl⟩
  · right
    cases hc : t₁.currentSession with
    | none => exact .inl rfl
    | some c => exact .inr ⟨c, rfl, hexhausted c hc⟩
  · left
    cases call
    refine ⟨c, packet, hc, hlt, rfl, rfl, ?_, rfl⟩
    rw [tickSent]
    split <;> rfl

/-- In every state that a tunnel reaches under a clock that does not run backwards, the current
index names the freshest live session. A packet is queued instead of sent only when no session is
live at all or the current one may not send any more. -/
theorem run_current_is_freshest {clock : ℕ → ℕ} (hclock : Monotone clock)
    {staticPrivate : K.Secret} {peerStaticPublic : Bytes} {keepalive : Option ℕ} {index : ℕ}
    {stamper : TimeStamper} {secrets : ℕ → K.Secret} {pool : PacketPool N BYTES}
    {ops : List (Op N BYTES)} {replies : List Reply}
    (hrun : Machine.run step
      (Tunn.new staticPrivate peerStaticPublic keepalive index stamper
        (World.start clock secrets pool)) ops = .ok (replies, t, w)) :
    (∀ i s, t.sessions i = some s → ∃ c, t.sessions (slotOf t.current) = some c ∧
      c.receivingIndex = t.current ∧
      t.timers.sessionTimers i ≤ t.timers.sessionTimers (slotOf t.current)) ∧
    ∀ packetType src dstLen r t' w',
      t.encapsulateWithType packetType src dstLen w = .ok (r, t', w') →
      (∃ c packet, t.currentSession = some c ∧ r = .writeToNetwork packet ∧
        w'.sealed = (c.sendingKey, c.sendingKeyCounter) :: w.sealed ∧
        t'.packetQueue = t.packetQueue ∧ w'.pool = w.pool) ∨
      (∀ i, t.sessions i = none) ∨
      ∃ c, t.currentSession = some c ∧ rejectAfterMessages ≤ c.sendingKeyCounter := by
  obtain ⟨ls, hpath, -⟩ := run_path hrun
  have hfresh : Freshest t w :=
    hpath.invariant Effect.freshest (new_freshest hclock _ _ _ _ _ _ _)
  refine ⟨hfresh.current, fun packetType src dstLen r t' w' call => ?_⟩
  rcases encapsulateWithType_ok call with hsent | hnone | hexhausted
  · obtain ⟨c, packet, hc, -, hrest⟩ := hsent
    exact .inl ⟨c, packet, hc, hrest⟩
  · refine .inr (.inl fun i => ?_)
    cases hi : t.sessions i with
    | none => rfl
    | some s =>
      obtain ⟨c, hc, -⟩ := hfresh.current i s hi
      exact nomatch hc.symm.trans hnone
  · exact .inr (.inr hexhausted)

theorem run_current_is_freshest_responder :
    ∃ replies t w s, Machine.run step Sample.responder Sample.ops = .ok (replies, t, w) ∧
      t.sessions (slotOf 512) = some s ∧ ∃ c, t.sessions (slotOf t.current) = some c ∧
        c.receivingIndex = t.current ∧
        t.timers.sessionTimers (slotOf 512) ≤ t.timers.sessionTimers (slotOf t.current) := by
  have hlive : okAnd (fun (_, t, _) => (t.sessions (slotOf 512)).isSome)
      (Machine.run step Sample.responder Sample.ops) = true := by decide +kernel
  obtain ⟨⟨replies, t, w⟩, hrun, hlive⟩ := exists_of_okAnd hlive
  obtain ⟨s, hs⟩ := Option.isSome_iff_exists.mp hlive
  have hclock : Monotone fun n => n * 1000 := fun a b hab => Nat.mul_le_mul_right 1000 hab
  exact ⟨replies, t, w, s, hrun, hs, (run_current_is_freshest hclock hrun).1 _ s hs⟩

end Tendrilix.Noise.Tunn
