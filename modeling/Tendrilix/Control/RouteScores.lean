import Tendrilix.Control.SteadyTraffic

/-!
# Scores, labels and decisions

The score of a route and its label are changed by successes, failures and age. They stay in step, and
every decision can be justified from the scores it leaves behind.
-/

namespace Tendrilix.Control

open Device (Stats)

namespace PolicyHealth

variable {p : PolicyHealth}

structure Coherent (p : PolicyHealth) : Prop where
  suspicion_le : p.suspicion ≤ policyFailureScore
  failed_iff : p.isFailed = true ↔ p.suspicion = policyFailureScore
  label_iff : p.suspicion = policyFailureScore ↔ p.state = .failed
  dated : 0 < p.suspicion → p.lastFailure.isSome

theorem Coherent.of_label (hle : p.suspicion ≤ policyFailureScore)
    (hlabel : p.suspicion = policyFailureScore ↔ p.state = .failed)
    (hdated : 0 < p.suspicion → p.lastFailure.isSome) : p.Coherent := by
  refine ⟨hle, ?_, hlabel, hdated⟩
  rw [isFailed, Bool.or_eq_true, decide_eq_true_eq, decide_eq_true_eq, ← hlabel]
  omega

theorem stateOf_failed_iff {suspicion : ℕ} (hle : suspicion ≤ policyFailureScore) :
    suspicion = policyFailureScore ↔ stateOf suspicion = .failed := by
  rw [stateOf]
  split
  · exact iff_of_true (by omega) rfl
  · exact iff_of_false (by omega) fun h => by cases h

theorem new_coherent : ({} : PolicyHealth).Coherent :=
  .of_label (Nat.zero_le _) (iff_of_false (fun h => by cases h) fun h => by cases h) fun h => by cases h

theorem Coherent.recordSuccess (hp : p.Coherent) (now : ℕ) : (p.recordSuccess now).Coherent := by
  have hle := hp.suspicion_le
  have hsuspicion : (p.recordSuccess now).suspicion = p.suspicion - 1 := rfl
  refine .of_label ?_ (iff_of_false ?_ fun h => by cases h) fun hpos => hp.dated ?_
  · omega
  · rw [hsuspicion]
    have hscore : 0 < policyFailureScore := by decide
    omega
  · omega

theorem Coherent.recordFailure (_ : p.Coherent) (now : ℕ) : (p.recordFailure now).Coherent := by
  have hle : (p.recordFailure now).suspicion ≤ policyFailureScore := min_le_right _ _
  exact .of_label hle (stateOf_failed_iff hle) fun _ => rfl

theorem Coherent.decay (hp : p.Coherent) (now : ℕ) : (p.decay now).Coherent := by
  rw [PolicyHealth.decay]
  split
  · exact hp
  · rename_i anchor hanchor
    split
    · exact hp
    · have hle := (decayLoop_le now p.suspicion anchor).trans hp.suspicion_le
      dsimp only
      split
      · exact .of_label (Nat.zero_le _) (iff_of_false (fun h => by cases h) fun h => by cases h) fun h => by cases h
      · exact .of_label hle (stateOf_failed_iff hle) fun _ => rfl

structure Kept (P : PolicyHealth → Prop) : Prop where
  new : P {}
  recordSuccess : ∀ {p : PolicyHealth} (now : ℕ), P p → P (p.recordSuccess now)
  recordFailure : ∀ {p : PolicyHealth} (now : ℕ), P p → P (p.recordFailure now)
  decay : ∀ {p : PolicyHealth} (now : ℕ), P p → P (p.decay now)

theorem Kept.noted {P : PolicyHealth → Prop} (hP : Kept P) (hp : P p) (sample : Sample) (now : ℕ) :
    P (p.noted sample now) := by
  cases sample with
  | healthy => exact hP.recordSuccess now hp
  | unhealthy => exact hP.recordFailure now hp
  | idle => exact hp

theorem coherent_kept : Kept Coherent where
  new := new_coherent
  recordSuccess now hp := hp.recordSuccess now
  recordFailure now hp := hp.recordFailure now
  decay now hp := hp.decay now

end PolicyHealth

namespace PeerHealth

variable {h h' : PeerHealth} {stats : Stats} {now policyCount policy active : ℕ}

/-! ### Scores -/

def Coherent (h : PeerHealth) : Prop := ∀ e ∈ h.policyHealth, e.health.Coherent

def All (P : PolicyHealth → Prop) (h : PeerHealth) : Prop := ∀ e ∈ h.policyHealth, P e.health

section Kept

variable {P : PolicyHealth → Prop} (hP : PolicyHealth.Kept P)
include hP

theorem All.syncPolicies (hh : h.All P) (profile : Profile) (activePolicy : ℕ)
    (routes : List RouteKey) : (h.syncPolicies profile activePolicy routes).All P := by
  intro e he
  rw [mem_syncPolicies he]
  rcases h.entryFor_mem e.route with hmem | hnew
  · exact hh _ hmem
  · rw [hnew]
    exact hP.new

theorem All.fold (hh : h.All P) (stats : Stats) (sample : Sample) (now : ℕ) :
    (h.fold stats sample now).All P := by
  intro e' he'
  obtain ⟨i, hi⟩ := List.mem_iff_getElem?.mp he'
  rw [fold_getElem, Option.map_eq_some_iff] at hi
  obtain ⟨e, he, rfl⟩ := hi
  have hdecayed := hP.decay now (hh e (List.mem_of_getElem? he))
  dsimp only
  split
  · exact hP.noted hdecayed sample now
  · exact hdecayed

end Kept

theorem Verdict.policyHealth_eq {answer : HealthDecision × PeerHealth}
    (hverdict : Verdict h stats policyCount now answer) :
    answer.2.policyHealth = h.policyHealth ∨
      ∃ sample, answer.2.policyHealth = (h.fold stats sample now).policyHealth := by
  cases hverdict with
  | single few => exact .inl rfl
  | first unseen => exact .inl observeFirst_policyHealth
  | idle => exact .inr ⟨.idle, rfl⟩
  | healthy => exact .inr ⟨.healthy, rfl⟩
  | healthyProbe => exact .inr ⟨.healthy, rfl⟩
  | recoveryFailed | hot | blamedProbe | suspect | failover | inactive | noViable =>
    exact .inr ⟨.unhealthy, rfl⟩

theorem Verdict.all {P : PolicyHealth → Prop} (hP : PolicyHealth.Kept P)
    {answer : HealthDecision × PeerHealth} (hverdict : Verdict h stats policyCount now answer)
    (hh : h.All P) : answer.2.All P := by
  rw [All]
  rcases hverdict.policyHealth_eq with heq | ⟨sample, heq⟩
  · rw [heq]
    exact hh
  · rw [heq]
    exact hh.fold hP stats sample now

theorem Verdict.routes_eq {answer : HealthDecision × PeerHealth}
    (hverdict : Verdict h stats policyCount now answer) : answer.2.routes = h.routes := by
  rcases hverdict.policyHealth_eq with heq | ⟨sample, heq⟩
  · rw [routes, heq, routes]
  · rw [← fold_routes h stats sample now, routes, heq, routes]

/-! ### Decisions -/

def Viable (h : PeerHealth) (active policyCount policy : ℕ) : Prop :=
  policy < policyCount ∧ policy ≠ active ∧ h.policyFailed policy = false

theorem mem_failover_candidates : policy ∈ (List.range policyCount).filter
      (fun idx => idx ≠ active && !h.policyFailed idx) ↔ h.Viable active policyCount policy := by
  simp [Viable]

theorem bestFailoverPolicy_viable (hbest : h.bestFailoverPolicy active policyCount = some policy) :
    h.Viable active policyCount policy ∧
      ∀ other, h.Viable active policyCount other → h.preference policy ≤ h.preference other := by
  rw [bestFailoverPolicy] at hbest
  exact ⟨mem_failover_candidates.mp (List.argmin_mem hbest), fun other hother =>
    List.le_of_mem_argmin (mem_failover_candidates.mpr hother) hbest⟩

theorem bestFailoverPolicy_none (hbest : h.bestFailoverPolicy active policyCount = none) (other : ℕ) :
    ¬h.Viable active policyCount other := by
  rw [bestFailoverPolicy, List.argmin_eq_none] at hbest
  rw [← mem_failover_candidates, hbest]
  exact List.not_mem_nil

def ProvenSince (h : PeerHealth) (policy since : ℕ) : Prop :=
  ∃ e ∈ h.policyHealth[policy]?, ∃ success ∈ e.health.lastSuccess, since ≤ success

theorem bestRecoveryPolicy_spec (hbest : h.bestRecoveryPolicy active = some policy) :
    policy < active ∧ (h.policyFailed policy = true → h.ProvenSince active h.lastSwitch) := by
  refine ⟨bestRecoveryPolicy_lt hbest, fun hfailed => ?_⟩
  rw [bestRecoveryPolicy] at hbest
  split at hbest
  · cases hbest
  · have hmem := (List.mem_filter.mp (List.argmin_mem hbest)).2
    rw [hfailed, Bool.not_true, Bool.false_or, Option.any_eq_true] at hmem
    obtain ⟨success, hsuccess, hsince⟩ := hmem
    obtain ⟨e, he, hlast⟩ := Option.bind_eq_some_iff.mp hsuccess
    exact ⟨e, he, success, hlast, of_decide_eq_true hsince⟩

/-- What a decision says about the scores it leaves behind. `active` and `lastSwitch` are from before
the call. -/
def Justified (active lastSwitch policyCount : ℕ) (after : PeerHealth) : HealthDecision → Prop
  | .stay => True
  | .switch nextPolicy reason =>
    nextPolicy < policyCount ∧ nextPolicy ≠ active ∧ after.activePolicy = nextPolicy ∧
      match reason with
      | .failover => after.Viable active policyCount nextPolicy ∧
          ∀ other, after.Viable active policyCount other →
            after.preference nextPolicy ≤ after.preference other
      | .recoveryProbe => nextPolicy < active ∧
          (after.policyFailed nextPolicy = true → after.ProvenSince active lastSwitch)
      | .recoveryFailed => True
  | .peerInactive | .noViablePolicy => ∀ other, ¬after.Viable active policyCount other

theorem ProbeDue.justified {sample : Sample} (hprobe : h.ProbeDue stats sample now policy)
    (hactive : h.activePolicy < policyCount) :
    Justified h.activePolicy h.lastSwitch policyCount
      ((h.fold stats sample now).takeFallback.switchTo policy now true)
      (.switch policy .recoveryProbe) := by
  obtain ⟨hlt, hproven⟩ := bestRecoveryPolicy_spec hprobe.best
  rw [fold_lastSwitch] at hproven
  exact ⟨hlt.trans hactive, hlt.ne, rfl, hlt, hproven⟩

theorem Verdict.justified {answer : HealthDecision × PeerHealth}
    (hverdict : Verdict h stats policyCount now answer)
    (hactive : 1 < policyCount → h.activePolicy < policyCount) :
    Justified h.activePolicy h.lastSwitch policyCount answer.2 answer.1 := by
  cases hverdict with
  | single | first | idle | healthy | hot | suspect => trivial
  | healthyProbe seen many judged probe => exact probe.justified (hactive many)
  | blamedProbe seen many blamed probe => exact probe.justified (hactive many)
  | recoveryFailed seen many judged fallback valid other => exact ⟨valid, other, rfl, trivial⟩
  | failover seen many blamed patient failed best =>
    obtain ⟨hviable, hbest⟩ := bestFailoverPolicy_viable best
    exact ⟨hviable.1, hviable.2.1, rfl, hviable, hbest⟩
  | inactive seen many blamed none => exact bestFailoverPolicy_none none
  | noViable seen many blamed none => exact bestFailoverPolicy_none none

end PeerHealth

def HealthCall.routeList {profile : Profile} : HealthCall profile → List RouteKey
  | .observe _ routes => routes
  | .syncPolicies _ routes => routes

namespace Timed

variable {profile : Profile}

structure Orderly (s : Timed × Unit) (op : ℕ × HealthCall profile) : Prop where
  routes_eq : (s.1.call op.1 op.2).2.health.routes = op.2.routeList
  coherent : (s.1.call op.1 op.2).2.health.Coherent
  justified : PeerHealth.Justified (RouteLog.aligned s.1.health op.2).activePolicy
    s.1.health.lastSwitch op.2.routeList.length (s.1.call op.1 op.2).2.health (s.1.call op.1 op.2).1
  switched : ∀ nextPolicy reason, (s.1.call op.1 op.2).1 = .switch nextPolicy reason →
    nextPolicy ≠ s.1.health.activePolicy

theorem ne_of_aligned {policyCount active nextPolicy : ℕ} (hlt : nextPolicy < policyCount)
    (hne : nextPolicy ≠ min active (policyCount - 1)) : nextPolicy ≠ active := by
  omega

theorem call_all {P : PolicyHealth → Prop} (hP : PolicyHealth.Kept P) (s : Timed) (wait : ℕ)
    (op : HealthCall profile) (hs : s.health.All P) : (s.call wait op).2.health.All P := by
  cases op with
  | syncPolicies activePolicy routes => exact hs.syncPolicies hP profile activePolicy routes
  | observe stats routes =>
    exact (PeerHealth.observe_verdict profile s.health stats routes (s.now + wait)).all hP
      (hs.syncPolicies hP profile s.health.activePolicy routes)

theorem call_orderly (s : Timed × Unit) (op : ℕ × HealthCall profile) (hs : s.1.health.Coherent) :
    Orderly s op := by
  obtain ⟨wait, op⟩ := op
  have hcoherent := call_all PolicyHealth.coherent_kept s.1 wait op hs
  cases op with
  | syncPolicies activePolicy routes =>
    exact ⟨PeerHealth.syncPolicies_routes _ _ routes.2, hcoherent, trivial, nofun⟩
  | observe stats routes =>
    have hverdict := PeerHealth.observe_verdict profile s.1.health stats routes (s.1.now + wait)
    have hactive : 1 < routes.1.length →
        (s.1.health.syncPolicies profile s.1.health.activePolicy routes).activePolicy <
          routes.1.length := by
      intro hmany
      exact (min_le_right _ _).trans_lt (by omega)
    have hjustified := hverdict.justified hactive
    refine ⟨?_, hcoherent, hjustified, fun nextPolicy reason hswitch => ?_⟩
    · exact hverdict.routes_eq.trans (PeerHealth.syncPolicies_routes _ _ routes.2)
    · change (s.1.health.observe profile stats routes (s.1.now + wait)).1 = _ at hswitch
      rw [hswitch] at hjustified
      exact ne_of_aligned hjustified.1 hjustified.2.1

/-- Whatever is sampled, and however the route list changes, scores and labels agree, the entries are
those of the current routes, and each decision is justified. -/
theorem run_orderly (profile : Profile) (activePolicy created jitter : ℕ)
    (ops : List (ℕ × HealthCall profile)) :
    Throughout unlogged Orderly (start activePolicy created jitter, ()) ops := by
  have hstart : (start activePolicy created jitter).health.Coherent := List.forall_mem_nil _
  exact Throughout.of_invariant (I := fun s : Timed × Unit => s.1.health.Coherent)
    (fun s op hs => ⟨(call_orderly s op hs).coherent, call_orderly s op hs⟩) hstart

end Timed

end Tendrilix.Control
