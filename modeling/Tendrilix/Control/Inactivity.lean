import Tendrilix.Control.ProbeSchedule

/-!
# After a peer was found inactive

The verdict that a peer is inactive is not consulted again. Its idle routes shed suspicion with time,
and one that has shed enough is a target for a failover although nothing was heard.
-/

namespace Tendrilix.Control

open Device (Stats)

namespace PeerHealth

variable {h : PeerHealth} {stats : Stats} {policyCount now : ℕ}

/-- An unanswered sample meets a route that has aged: no probe is outstanding or due, the cooldown
is over and the active route fails with the sample. -/
structure Relapse (h : PeerHealth) (stats : Stats) (policyCount now : ℕ) : Prop where
  seen : h.hasObservedStats = true
  blamed : h.Blamed stats policyCount now
  patient : ∀ policy, ¬h.ProbeDue stats .unhealthy now policy
  failed : h.failsNext now = true
  eligible : ∃ policy < policyCount, policy ≠ h.activePolicy ∧ h.aged policy now = true

theorem bestFailoverPolicy_isSome_iff {active : ℕ} :
    (∃ policy, h.bestFailoverPolicy active policyCount = some policy) ↔
      ∃ policy < policyCount, policy ≠ active ∧ h.policyFailed policy = false := by
  rw [← Option.isSome_iff_exists, bestFailoverPolicy, Option.isSome_iff_ne_none, ne_eq,
    List.argmin_eq_none, List.filter_eq_nil_iff]
  simp

theorem Verdict.failover_iff {answer : HealthDecision × PeerHealth}
    (hverdict : Verdict h stats policyCount now answer) :
    (∃ policy, answer.1 = .switch policy .failover) ↔ 1 < policyCount ∧ h.Relapse stats policyCount now := by
  have heligible : (∃ policy, (h.fold stats .unhealthy now).bestFailoverPolicy h.activePolicy
      policyCount = some policy) ↔
      ∃ policy < policyCount, policy ≠ h.activePolicy ∧ h.aged policy now = true := by
    rw [bestFailoverPolicy_isSome_iff]
    refine exists_congr fun policy => and_congr_right fun _ => and_congr_right fun hne => ?_
    rw [fold_policyFailed_of_ne hne, Bool.not_eq_false']
  constructor
  · rintro ⟨policy, hpolicy⟩
    cases hverdict with
    | failover seen many blamed patient failed best =>
      rw [fold_policyFailed_active] at failed
      exact ⟨many, seen, blamed, patient, failed, heligible.mp ⟨_, best⟩⟩
    | _ => cases hpolicy
  · rintro ⟨hmany, hrelapse⟩
    obtain ⟨policy, hbest⟩ := heligible.mpr hrelapse.eligible
    have hunhealthy := hrelapse.blamed.unhealthy
    cases hverdict with
    | single few => omega
    | first unseen => cases unseen.symm.trans hrelapse.seen
    | idle seen many judged | healthy seen many judged | healthyProbe seen many judged =>
      cases judged.symm.trans hunhealthy
    | recoveryFailed seen many judged fallback valid other =>
      have hkept := hrelapse.blamed.settled
      rw [fallback, Option.filter_some, if_pos (by simp [valid, other])] at hkept
      cases hkept
    | hot seen many judged settled early => cases early.symm.trans hrelapse.blamed.cooled
    | blamedProbe seen many blamed probe => exact absurd probe (hrelapse.patient _)
    | suspect seen many blamed works =>
      cases works.symm.trans (fold_policyFailed_active.trans hrelapse.failed)
    | failover => exact ⟨_, rfl⟩
    | inactive seen many blamed none unproven => cases none.symm.trans hbest
    | noViable seen many blamed exhausted => cases exhausted.symm.trans hbest

end PeerHealth

/-- Whether the peer was found inactive and nothing has been heard since. -/
structure InactivityLog where
  inactive : Bool := false
  lastRx : ℕ := 0

namespace InactivityLog

variable {profile : Profile}

def note (l : InactivityLog) (_ : Timed) (op : HealthCall profile) (d : HealthDecision) (_ : Timed) :
    InactivityLog :=
  match op with
  | .observe stats _ =>
    { inactive := d = .peerInactive || (l.inactive && !decide (l.lastRx < stats.traffic.rxPackets))
      lastRx := stats.traffic.rxPackets }
  | .syncPolicies _ _ => l

/-- A sample without inbound growth, while the verdict stands. -/
def Silent (s : Timed × InactivityLog) (stats : Stats) : Prop :=
  s.2.inactive = true ∧ ¬s.2.lastRx < stats.traffic.rxPackets

/-- No failover while the verdict stands. -/
def Suppressed (s : Timed × InactivityLog) (op : ℕ × HealthCall profile) : Prop :=
  ∀ stats routes, op.2 = .observe stats routes → Silent s stats →
    ∀ policy, (s.1.call op.1 op.2).1 ≠ .switch policy .failover

/-- While the verdict stands, no unanswered sample meets a route that has aged. -/
def NoRelapse (s : Timed × InactivityLog) (op : ℕ × HealthCall profile) : Prop :=
  ∀ stats routes, op.2 = .observe stats routes → Silent s stats → 1 < routes.1.length →
    ¬(s.1.health.syncPolicies profile s.1.health.activePolicy routes).Relapse stats
      routes.1.length (s.1.now + op.1)

theorem suppressed_iff (s : Timed × InactivityLog) (op : ℕ × HealthCall profile) :
    Suppressed s op ↔ NoRelapse s op := by
  refine forall_congr' fun stats => forall_congr' fun routes => forall_congr' fun hop =>
    forall_congr' fun _ => ?_
  have hverdict := PeerHealth.observe_verdict profile s.1.health stats routes (s.1.now + op.1)
  have hdecision : (s.1.call op.1 op.2).1 =
      (s.1.health.observe profile stats routes (s.1.now + op.1)).1 := by
    rw [hop]
    rfl
  rw [hdecision, ← not_exists, hverdict.failover_iff, not_and]

/-- In a run of samples under one route list, failovers stay suppressed after the verdict exactly as
long as no unanswered sample meets a route that has aged. -/
theorem run_suppressed_iff (profile : Profile) (activePolicy created jitter : ℕ)
    (routes : RouteKeyVec profile) (samples : List (ℕ × Stats)) :
    Timed.Throughout note Suppressed (Timed.start activePolicy created jitter, {})
        (Timed.observations routes samples) ↔
      Timed.Throughout note NoRelapse (Timed.start activePolicy created jitter, {})
        (Timed.observations routes samples) :=
  Timed.Throughout.congr suppressed_iff

end InactivityLog

end Tendrilix.Control

namespace Tendrilix.Sample

open Control

def twoRoutes : RouteKeyVec .alloc := routeKeyVec [.direct none, .relay (key 3)]

def inactiveRun : Timed × InactivityLog :=
  (unanswered twoRoutes [0, 30, 5, 130, 5]).foldl (Timed.watch InactivityLog.note)
    (Timed.start 1 0 0, {})

/-- After ten more minutes of silence there is a failover to the second route. -/
theorem inactive_peer_fails_over :
    inactiveRun.2.inactive = true ∧ InactivityLog.Silent inactiveRun (counters 6 0) ∧
      (inactiveRun.1.call (secs 470) (.observe (counters 6 0) twoRoutes)).1 = .switch 1 .failover ∧
      ¬InactivityLog.Suppressed inactiveRun (secs 470, .observe (counters 6 0) twoRoutes) := by
  have hinactive : inactiveRun.2.inactive = true := by decide +kernel
  have hsilent : InactivityLog.Silent inactiveRun (counters 6 0) := ⟨hinactive, by decide +kernel⟩
  have hfailover : (inactiveRun.1.call (secs 470) (.observe (counters 6 0) twoRoutes)).1 =
      .switch 1 .failover := by decide +kernel
  exact ⟨hinactive, hsilent, hfailover, fun h => h _ _ rfl hsilent 1 hfailover⟩

end Tendrilix.Sample
