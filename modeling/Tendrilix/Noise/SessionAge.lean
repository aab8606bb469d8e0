import Tendrilix.Noise.SessionRing
import Tendrilix.Noise.TimeStamps

/-!
# Sessions die on time

The age of a session is measured with the stamp of its slot. A record of when the session of each
slot was established runs beside the tunnel, and the stamps of the live sessions agree with it.
-/

namespace Tendrilix.Noise.Tunn

variable {K : Crypto} {N BYTES : ℕ} {t t' : Tunn K} {born : Fin 3 → ℕ}

abbrev Dated (K : Crypto) (N BYTES : ℕ) := (Tunn K × World K N BYTES) × (Fin 3 → ℕ)

def date (s : Dated K N BYTES) (op : Op N BYTES) : Fin 3 → ℕ :=
  match completes s.1 op with
  | some index => Function.update s.2 (slotOf index) (s.1.1.timers.timers .timeCurrent)
  | none => s.2

def datedStep (s : Dated K N BYTES) (op : Op N BYTES) : Call (Reply × Dated K N BYTES) := do
  let (reply, s') ← step s.1 op
  return (reply, s', date s op)

def Stamped (t : Tunn K) (born : Fin 3 → ℕ) : Prop :=
  ∀ i, (t.sessions i).isSome → t.timers.sessionTimers i = born i

theorem Stamped.keeps (h : Stamped t born) (hkeeps : t.Keeps t') : Stamped t' born := by
  intro i hlive
  obtain ⟨session', hs'⟩ := Option.isSome_iff_exists.mp hlive
  obtain ⟨session, hs, -⟩ := hkeeps.exists_of_some hs'
  rw [hkeeps.stamps_eq]
  exact h i (Option.isSome_iff_exists.mpr ⟨session, hs⟩)

theorem Stamped.stores {index : ℕ} {session : Session} (h : Stamped t born)
    (hstores : Stores t index session t') :
    Stamped t' (Function.update born (slotOf index) (t.timers.timers .timeCurrent)) := by
  intro i hlive
  rw [hstores.stamps_eq]
  by_cases hi : i = slotOf index
  · subst hi
    rw [Function.update_self, Function.update_self]
  · rw [hstores.sessions_eq, Function.update_of_ne hi] at hlive
    rw [Function.update_of_ne hi, Function.update_of_ne hi]
    exact h i hlive

theorem Stamped.expire {now : ℕ} (h : Stamped t born)
    (call : { t with timers := t.timers.set .timeCurrent now }.updateSessionTimers now = .ok t') :
    Stamped t' born := by
  intro i hlive
  rcases updateSessionTimers_slot call i with ⟨-, hnone⟩ | ⟨-, hsession, hstamp⟩
  · rw [hnone] at hlive
    cases hlive
  · rw [hsession] at hlive
    rw [hstamp]
    exact h i hlive

theorem date_of_completes {s : Dated K N BYTES} {op : Op N BYTES} {index : ℕ}
    (h : completes s.1 op = some index) :
    date s op = Function.update s.2 (slotOf index) (s.1.1.timers.timers .timeCurrent) := by
  rw [date]
  simp only [h]

theorem date_of_other {s : Dated K N BYTES} {op : Op N BYTES} (h : completes s.1 op = none) :
    date s op = s.2 := by
  rw [date]
  simp only [h]

theorem datedStep_ok {s s' : Dated K N BYTES} {op : Op N BYTES} {reply : Reply}
    (h : datedStep s op = .ok (reply, s')) : step s.1 op = .ok (reply, s'.1) ∧ s'.2 = date s op := by
  obtain ⟨⟨reply', s₁⟩, hstep, h⟩ := bind_ok_iff.mp h
  cases h
  exact ⟨hstep, rfl⟩

/-- The invariant of runs. -/
structure Ages (s : Dated K N BYTES) : Prop where
  onTime : s.1.1.OnTime s.1.2
  stamped : Stamped s.1.1 s.2

theorem datedStep_ages {s s' : Dated K N BYTES} {op : Op N BYTES} {reply : Reply} (h : Ages s)
    (hstep : datedStep s op = .ok (reply, s')) : Ages s' := by
  obtain ⟨hstep, hborn⟩ := datedStep_ok hstep
  refine ⟨step_onTime _ op reply _ h.onTime hstep, ?_⟩
  rw [hborn]
  rcases step_slots hstep with ⟨index, session, hcompletes, hstores⟩ |
    ⟨hcompletes, ⟨dstLen, rfl, t₁, hexpire, hkeeps⟩ | ⟨hop, hkeeps⟩⟩
  · rw [date_of_completes hcompletes]
    exact h.stamped.stores hstores
  · rw [date_of_other hcompletes]
    exact (h.stamped.expire hexpire).keeps hkeeps
  · rw [date_of_other hcompletes]
    exact h.stamped.keeps hkeeps

theorem updateTimers_lives {w : World K N BYTES} {w' : World K N BYTES} {dstLen : ℕ}
    {r : TunnResult} (h : Stamped t born) (call : t.updateTimers dstLen w = .ok (r, t', w'))
    (i : Fin 3) :
    (∀ session', t'.sessions i = some session' → t.elapsed w ≤ born i + rejectAfterTime ∧
      ∃ session, t.sessions i = some session ∧ session.Same session') ∧
    (∀ session, t.sessions i = some session → t'.sessions i = none →
      born i + rejectAfterTime < t.elapsed w) := by
  obtain ⟨t₁, hexpire, hkeeps⟩ := updateTimers_keeps call
  have hstamp : ∀ session, t.sessions i = some session → t.timers.sessionTimers i = born i :=
    fun session hs => h i (by rw [hs]; rfl)
  rcases updateSessionTimers_slot hexpire i with ⟨hold, hnone⟩ | ⟨hyoung, hsame, -⟩
  · constructor
    · intro session' hs'
      rw [hkeeps.none_of_none hnone] at hs'
      cases hs'
    · intro session hs _
      rw [hstamp session hs] at hold
      omega
  · constructor
    · intro session' hs'
      obtain ⟨session, hs, hsessions⟩ := hkeeps.exists_of_some hs'
      rw [hsame] at hs
      rw [hstamp session hs] at hyoung
      exact ⟨by omega, session, hs, hsessions⟩
    · intro session hs hnone
      obtain ⟨session', hs', -⟩ := hkeeps.some_of_some (hsame.trans hs)
      rw [hnone] at hs'
      cases hs'

/-- In every run under a clock that does not run backwards, a call of `update_timers` leaves the sessions
that were established no longer ago than `REJECT_AFTER_TIME`, and drops only older ones. Any other call
stores a new session in a slot or leaves its session alone, with the time it was established. -/
theorem run_sessions_die_on_time {clock : ℕ → ℕ} (hclock : Monotone clock)
    {staticPrivate : K.Secret} {peerStaticPublic : Bytes} {keepalive : Option ℕ} {index : ℕ}
    {stamper : TimeStamper} {secrets : ℕ → K.Secret} {pool : PacketPool N BYTES}
    {ops : List (Op N BYTES)} {replies : List Reply} {s s' : Dated K N BYTES} {op : Op N BYTES}
    {reply : Reply}
    (hrun : Machine.run datedStep
      (Tunn.new staticPrivate peerStaticPublic keepalive index stamper
        (World.start clock secrets pool), fun _ => 0) ops = .ok (replies, s))
    (hstep : datedStep s op = .ok (reply, s')) :
    (∀ dstLen, op = .updateTimers dstLen → s'.2 = s.2 ∧ ∀ i,
      (∀ session', s'.1.1.sessions i = some session' →
        s.2 i ≤ s.1.1.elapsed s.1.2 ∧ s.1.1.elapsed s.1.2 ≤ s.2 i + rejectAfterTime ∧
        ∃ session, s.1.1.sessions i = some session ∧ session.Same session') ∧
      (∀ session, s.1.1.sessions i = some session → s'.1.1.sessions i = none →
        s.2 i + rejectAfterTime < s.1.1.elapsed s.1.2)) ∧
    ((∀ dstLen, op ≠ .updateTimers dstLen) → ∀ i,
      (∃ index session, completes s.1 op = some index ∧ slotOf index = i ∧
        s'.1.1.sessions i = some session ∧ session.receivingIndex = index ∧
        s'.2 i = s.1.1.timers.timers .timeCurrent) ∨
      Option.Rel Session.Same (s.1.1.sessions i) (s'.1.1.sessions i) ∧ s'.2 i = s.2 i) := by
  have hnew := new_onTime hclock staticPrivate peerStaticPublic keepalive index stamper secrets pool
  have hs : Ages s :=
    Machine.run_invariant (fun _ _ _ _ _ h hstep => datedStep_ages h hstep) hrun
      ⟨hnew, fun i hlive => nomatch hlive⟩
  obtain ⟨⟨t', w'⟩, born'⟩ := s'
  obtain ⟨hop, rfl⟩ := datedStep_ok hstep
  refine ⟨?_, fun hother i => ?_⟩
  · rintro dstLen rfl
    refine ⟨rfl, fun i => ?_⟩
    obtain ⟨⟨r, t₁, w₁⟩, hcall, hop⟩ := bind_ok_iff.mp hop
    cases hop
    obtain ⟨hlive, hdropped⟩ := updateTimers_lives hs.stamped hcall i
    refine ⟨fun session' hs' => ?_, hdropped⟩
    obtain ⟨hyoung, session, hsession, hsame⟩ := hlive session' hs'
    have hle := hs.onTime.stamp_le i
    rw [hs.stamped i (by rw [hsession]; rfl)] at hle
    exact ⟨hle, hyoung, session, hsession, hsame⟩
  · dsimp only
    rcases step_slots hop with ⟨index, session, hcompletes, hstores⟩ |
      ⟨hcompletes, ⟨dstLen, rfl, -⟩ | ⟨-, hkeeps⟩⟩
    · rw [date_of_completes hcompletes, hstores.sessions_eq]
      by_cases hi : i = slotOf index
      · subst hi
        rw [Function.update_self, Function.update_self]
        exact .inl ⟨index, session, hcompletes, rfl, rfl, hstores.index_eq, rfl⟩
      · rw [Function.update_of_ne hi, Function.update_of_ne hi]
        exact .inr ⟨(Keeps.of_eq rfl rfl : s.1.1.Keeps s.1.1).same i, rfl⟩
    · exact absurd rfl (hother dstLen)
    · rw [date_of_other hcompletes]
      exact .inr ⟨hkeeps.same i, rfl⟩

theorem run_sessions_die_on_time_responder :
    ∃ replies s reply s' session', Machine.run datedStep (Sample.responder, fun _ => 0) Sample.ops =
        .ok (replies, s) ∧ datedStep s (.updateTimers maxPacketSize) = .ok (reply, s') ∧
      s'.1.1.sessions (slotOf 512) = some session' ∧
      s.1.1.elapsed s.1.2 ≤ s.2 (slotOf 512) + rejectAfterTime := by
  have hcheck : okAnd (fun (_, s) => okAnd (fun (_, s') => (s'.1.1.sessions (slotOf 512)).isSome)
      (datedStep s (.updateTimers maxPacketSize)))
      (Machine.run datedStep (Sample.responder, fun _ => 0) Sample.ops) = true := by decide +kernel
  obtain ⟨⟨replies, s⟩, hrun, hcheck⟩ := exists_of_okAnd hcheck
  obtain ⟨⟨reply, s'⟩, hstep, hlive⟩ := exists_of_okAnd hcheck
  obtain ⟨session', hs'⟩ := Option.isSome_iff_exists.mp hlive
  have hclock : Monotone fun n => n * 1000 := fun a b hab => Nat.mul_le_mul_right 1000 hab
  have hdie := (run_sessions_die_on_time hclock hrun hstep).1 maxPacketSize rfl
  exact ⟨replies, s, reply, s', session', hrun, hstep, hs', ((hdie.2 _).1 session' hs').2.1⟩

end Tendrilix.Noise.Tunn
