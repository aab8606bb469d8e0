import Tendrilix.Control.PeerHealth

/-!
# What a sample can lead to

`Verdict` lists the ways in which `observe` can answer, with everything that is checked on the way.
Runs of samples and of changes of the route list are measured in the time that passes between two
calls, so that no clock runs backwards.
-/

namespace Tendrilix.Control

open Device (Stats)

namespace PolicyHealth

theorem decayLoop_le (now suspicion anchor : ℕ) : (decayLoop now suspicion anchor).1 ≤ suspicion := by
  induction suspicion generalizing anchor with
  | zero => exact le_rfl
  | succ suspicion ih =>
    rw [decayLoop]
    split
    · exact (ih _).trans (Nat.le_succ _)
    · exact le_rfl

def noted (p : PolicyHealth) (sample : Sample) (now : ℕ) : PolicyHealth :=
  match sample with
  | .healthy => p.recordSuccess now
  | .unhealthy => p.recordFailure now
  | .idle => p

theorem noted_lastSuccess (p : PolicyHealth) (sample : Sample) (now : ℕ) :
    (p.noted sample now).lastSuccess = if sample = .healthy then some now else p.lastSuccess := by
  cases sample <;> rfl

theorem decay_lastSuccess (p : PolicyHealth) (now : ℕ) : (p.decay now).lastSuccess = p.lastSuccess := by
  rw [decay]
  split
  · rfl
  · split
    · rfl
    · dsimp only
      split <;> rfl

theorem isFailed_recordFailure (p : PolicyHealth) (now : ℕ) : (p.recordFailure now).isFailed =
    decide (policyFailureScore ≤ p.suspicion + unhealthyScoreDelta) := by
  rw [isFailed, recordFailure, stateOf]
  by_cases hscore : policyFailureScore ≤ p.suspicion + unhealthyScoreDelta
  · simp [hscore]
  · simp [hscore]

end PolicyHealth

namespace PeerHealth

variable {h : PeerHealth} {stats : Stats} {sample : Sample} {now policy : ℕ}

/-! ### The entries of a state -/

theorem fold_getElem (i : ℕ) : (h.fold stats sample now).policyHealth[i]? =
    h.policyHealth[i]?.map fun e => { e with
      health := if i = h.activePolicy then (e.health.decay now).noted sample now
        else e.health.decay now } := by
  have hmodify : ∀ f : PolicyHealth → PolicyHealth,
      ((h.policyHealth.map fun e => { e with health := e.health.decay now }).modify h.activePolicy
        fun e => { e with health := f e.health })[i]? =
      h.policyHealth[i]?.map fun e => { e with
        health := if i = h.activePolicy then f (e.health.decay now) else e.health.decay now } := by
    intro f
    rw [List.getElem?_modify, List.getElem?_map]
    by_cases hi : h.activePolicy = i
    · simp [hi, Function.comp_def]
    · simp [hi, Ne.symm hi]
  cases sample with
  | healthy => exact hmodify (·.recordSuccess now)
  | unhealthy => exact hmodify (·.recordFailure now)
  | idle => simp [fold, recordSample, PolicyHealth.noted]

theorem mem_syncPolicies {profile : Profile} {activePolicy : ℕ} {routes : List RouteKey}
    {e : PolicyHealthEntry} (he : e ∈ (h.syncPolicies profile activePolicy routes).policyHealth) :
    e = h.entryFor e.route := by
  have hmem : e ∈ routes.map h.entryFor := by
    rw [syncPolicies] at he
    dsimp only at he
    cases hmax : profile.maxRoutes with
    | none => rwa [hmax] at he
    | some capacity =>
      rw [hmax] at he
      exact List.mem_of_mem_take he
  obtain ⟨route, -, rfl⟩ := List.mem_map.mp hmem
  rw [entryFor_route]

theorem entryFor_mem (h : PeerHealth) (route : RouteKey) :
    h.entryFor route ∈ h.policyHealth ∨ h.entryFor route = { route := route } := by
  rw [entryFor]
  cases hfind : h.policyHealth.find? (·.route = route) with
  | none => exact .inr rfl
  | some e => exact .inl (List.mem_of_find?_eq_some hfind)

/-! ### The fields of a state -/

@[simp] theorem fold_lastSwitch : (h.fold stats sample now).lastSwitch = h.lastSwitch := by
  cases sample <;> rfl

@[simp] theorem fold_switchCount : (h.fold stats sample now).switchCount = h.switchCount := by
  cases sample <;> rfl

@[simp] theorem fold_jitter : (h.fold stats sample now).jitter = h.jitter := by
  cases sample <;> rfl

@[simp] theorem fold_recoveryFallback :
    (h.fold stats sample now).recoveryFallback = h.recoveryFallback := by
  cases sample <;> rfl

@[simp] theorem fold_hasObservedStats :
    (h.fold stats sample now).hasObservedStats = h.hasObservedStats := by
  cases sample <;> rfl

@[simp] theorem fold_lastRxPackets :
    (h.fold stats sample now).lastRxPackets = stats.traffic.rxPackets := by
  cases sample <;> rfl

@[simp] theorem fold_lastTxPackets :
    (h.fold stats sample now).lastTxPackets = stats.traffic.txPackets := by
  cases sample <;> rfl

@[simp] theorem fold_lastInboundAt :
    (h.fold stats sample now).lastInboundAt =
      if h.lastRxPackets < stats.traffic.rxPackets then some now else h.lastInboundAt := by
  cases sample <;> rfl

theorem fold_nextRecoveryAttemptAt :
    (h.fold stats sample now).nextRecoveryAttemptAt =
      if sample = .healthy then now + recoveryProbeInterval + h.jitter
      else h.nextRecoveryAttemptAt := by
  cases sample <;> rfl

def takeFallback (h : PeerHealth) : PeerHealth := { h with recoveryFallback := none }

@[simp] theorem switchTo_activePolicy (probe : Bool) :
    (h.switchTo policy now probe).activePolicy = policy := rfl

@[simp] theorem switchTo_lastSwitch (probe : Bool) :
    (h.switchTo policy now probe).lastSwitch = now := rfl

@[simp] theorem switchTo_lastInboundAt (probe : Bool) :
    (h.switchTo policy now probe).lastInboundAt = none := rfl

@[simp] theorem switchTo_jitter (probe : Bool) :
    (h.switchTo policy now probe).jitter = h.jitter := rfl

@[simp] theorem switchTo_policyHealth (probe : Bool) :
    (h.switchTo policy now probe).policyHealth = h.policyHealth := rfl

@[simp] theorem switchTo_nextRecoveryAttemptAt (probe : Bool) :
    (h.switchTo policy now probe).nextRecoveryAttemptAt =
      now + recoveryProbeInterval + h.jitter := rfl

/-! ### Before a sample is recorded -/

def aging (h : PeerHealth) (now : ℕ) : PeerHealth :=
  { h with policyHealth := h.policyHealth.map fun e => { e with health := e.health.decay now } }

def aged (h : PeerHealth) (policy now : ℕ) : Bool :=
  !h.policyHealth[policy]?.any fun e => (e.health.decay now).isFailed

def failsNext (h : PeerHealth) (now : ℕ) : Bool :=
  h.policyHealth[h.activePolicy]?.any fun e =>
    policyFailureScore ≤ (e.health.decay now).suspicion + unhealthyScoreDelta

def vouched (h : PeerHealth) (sample : Sample) (now : ℕ) : Bool :=
  h.policyHealth[h.activePolicy]?.any fun e =>
    (if sample = .healthy then some now else e.health.lastSuccess).any (h.lastSwitch ≤ ·)

def probeTarget (h : PeerHealth) (sample : Sample) (now : ℕ) : Option ℕ :=
  ((List.range h.activePolicy).filter fun policy => h.aged policy now || h.vouched sample now).argmin
    (h.aging now).preference

@[simp] theorem fold_cooldownElapsed :
    (h.fold stats sample now).cooldownElapsed now = h.cooldownElapsed now := by
  simp only [cooldownElapsed, currentSwitchCooldown, fold_switchCount, fold_jitter, fold_lastSwitch]

theorem fold_policyFailed_of_ne (hne : policy ≠ h.activePolicy) :
    (h.fold stats sample now).policyFailed policy = !h.aged policy now := by
  rw [policyFailed, fold_getElem, aged, Bool.not_not]
  cases h.policyHealth[policy]? with
  | none => rfl
  | some e => simp [hne]

theorem fold_policyFailed_active :
    (h.fold stats .unhealthy now).policyFailed h.activePolicy = h.failsNext now := by
  rw [policyFailed, fold_getElem, failsNext]
  cases h.policyHealth[h.activePolicy]? with
  | none => rfl
  | some e => simp [PolicyHealth.noted, PolicyHealth.isFailed_recordFailure]

theorem fold_preference_of_ne (hne : policy ≠ h.activePolicy) :
    (h.fold stats sample now).preference policy = (h.aging now).preference policy := by
  rw [preference, preference, fold_getElem, aging, List.getElem?_map]
  simp [hne]

theorem argmin_congr {α β : Type} [LinearOrder β] {f g : α → β} {l : List α} (h : ∀ a ∈ l, f a = g a) :
    l.argmin f = l.argmin g := by
  classical
  ext m
  rw [List.argmin_eq_some_iff, List.argmin_eq_some_iff]
  refine and_congr_right fun hm => ?_
  rw [h m hm]
  refine and_congr (forall₂_congr fun a ha => ?_) (forall₂_congr fun a ha => ?_) <;> rw [h a ha]

theorem fold_bestRecoveryPolicy :
    (h.fold stats sample now).bestRecoveryPolicy h.activePolicy = h.probeTarget sample now := by
  have hne : ∀ policy ∈ List.range h.activePolicy, policy ≠ h.activePolicy := fun policy hmem =>
    (List.mem_range.mp hmem).ne
  have hvouched : (((h.fold stats sample now).policyHealth[h.activePolicy]?.bind
      (·.health.lastSuccess)).any ((h.fold stats sample now).lastSwitch ≤ ·)) =
        h.vouched sample now := by
    rw [fold_getElem, vouched, fold_lastSwitch]
    cases h.policyHealth[h.activePolicy]? with
    | none => rfl
    | some e => simp [PolicyHealth.noted_lastSuccess, PolicyHealth.decay_lastSuccess]
  rw [bestRecoveryPolicy, probeTarget]
  split
  · rename_i hzero
    rw [hzero]
    rfl
  · have hfilter : (List.range h.activePolicy).filter (fun idx =>
        !(h.fold stats sample now).policyFailed idx || h.vouched sample now) =
        (List.range h.activePolicy).filter fun policy => h.aged policy now || h.vouched sample now := by
      apply List.filter_congr
      intro policy hmem
      rw [fold_policyFailed_of_ne (hne policy hmem), Bool.not_not]
    dsimp only
    rw [hvouched, hfilter]
    exact argmin_congr fun policy hmem => fold_preference_of_ne (hne policy (List.mem_of_mem_filter hmem))

/-! ### Verdicts -/

/-- The sample speaks against the active route, and nothing has to be awaited or undone first. -/
structure Blamed (h : PeerHealth) (stats : Stats) (policyCount now : ℕ) : Prop where
  unhealthy : h.classify stats now = .unhealthy
  settled : h.recoveryFallback.filter (fun f => f < policyCount && f ≠ h.activePolicy) = none
  cooled : h.cooldownElapsed now = true

/-- Real traffic may try a more preferred route. -/
structure ProbeDue (h : PeerHealth) (stats : Stats) (sample : Sample) (now policy : ℕ) : Prop where
  sentMore : h.lastTxPackets < stats.traffic.txPackets
  due : h.nextRecoveryAttemptAt ≤ now
  target : h.probeTarget sample now = some policy

theorem ProbeDue.best (hprobe : h.ProbeDue stats sample now policy) :
    (h.fold stats sample now).bestRecoveryPolicy h.activePolicy = some policy :=
  fold_bestRecoveryPolicy.trans hprobe.target

inductive Verdict (h : PeerHealth) (stats : Stats) (policyCount now : ℕ) :
    HealthDecision × PeerHealth → Prop
  | single (few : policyCount ≤ 1) : Verdict h stats policyCount now (.stay, h)
  | first (unseen : h.hasObservedStats = false) :
      Verdict h stats policyCount now (.stay, h.observeFirst stats now)
  | idle (seen : h.hasObservedStats = true) (many : 1 < policyCount)
      (judged : h.classify stats now = .idle) :
      Verdict h stats policyCount now (.stay, h.fold stats .idle now)
  | healthy (seen : h.hasObservedStats = true) (many : 1 < policyCount)
      (judged : h.classify stats now = .healthy)
      (patient : ∀ policy, ¬h.ProbeDue stats .healthy now policy) :
      Verdict h stats policyCount now (.stay, (h.fold stats .healthy now).takeFallback)
  | healthyProbe {policy : ℕ} (seen : h.hasObservedStats = true) (many : 1 < policyCount)
      (judged : h.classify stats now = .healthy) (probe : h.ProbeDue stats .healthy now policy) :
      Verdict h stats policyCount now (.switch policy .recoveryProbe,
        (h.fold stats .healthy now).takeFallback.switchTo policy now true)
  | recoveryFailed {policy : ℕ} (seen : h.hasObservedStats = true) (many : 1 < policyCount)
      (judged : h.classify stats now = .unhealthy) (fallback : h.recoveryFallback = some policy)
      (valid : policy < policyCount) (other : policy ≠ h.activePolicy) :
      Verdict h stats policyCount now (.switch policy .recoveryFailed,
        (h.fold stats .unhealthy now).takeFallback.switchTo policy now false)
  | hot (seen : h.hasObservedStats = true) (many : 1 < policyCount)
      (judged : h.classify stats now = .unhealthy)
      (settled : h.recoveryFallback.filter (fun f => f < policyCount && f ≠ h.activePolicy) = none)
      (early : h.cooldownElapsed now = false) :
      Verdict h stats policyCount now (.stay, (h.fold stats .unhealthy now).takeFallback)
  | blamedProbe {policy : ℕ} (seen : h.hasObservedStats = true) (many : 1 < policyCount)
      (blamed : h.Blamed stats policyCount now) (probe : h.ProbeDue stats .unhealthy now policy) :
      Verdict h stats policyCount now (.switch policy .recoveryProbe,
        (h.fold stats .unhealthy now).takeFallback.switchTo policy now true)
  | suspect (seen : h.hasObservedStats = true) (many : 1 < policyCount)
      (blamed : h.Blamed stats policyCount now)
      (works : (h.fold stats .unhealthy now).policyFailed h.activePolicy = false) :
      Verdict h stats policyCount now (.stay, (h.fold stats .unhealthy now).takeFallback)
  | failover {policy : ℕ} (seen : h.hasObservedStats = true) (many : 1 < policyCount)
      (blamed : h.Blamed stats policyCount now)
      (patient : ∀ policy, ¬h.ProbeDue stats .unhealthy now policy)
      (failed : (h.fold stats .unhealthy now).policyFailed h.activePolicy = true)
      (best : (h.fold stats .unhealthy now).bestFailoverPolicy h.activePolicy policyCount =
        some policy) :
      Verdict h stats policyCount now (.switch policy .failover,
        (h.fold stats .unhealthy now).takeFallback.switchTo policy now false)
  | inactive (seen : h.hasObservedStats = true) (many : 1 < policyCount)
      (blamed : h.Blamed stats policyCount now)
      (none : (h.fold stats .unhealthy now).bestFailoverPolicy h.activePolicy policyCount = none)
      (unproven : (h.fold stats .unhealthy now).hasAnyRouteSuccess = false) :
      Verdict h stats policyCount now (.peerInactive,
        { (h.fold stats .unhealthy now).takeFallback with liveness := .likelyInactive })
  | noViable (seen : h.hasObservedStats = true) (many : 1 < policyCount)
      (blamed : h.Blamed stats policyCount now)
      (none : (h.fold stats .unhealthy now).bestFailoverPolicy h.activePolicy policyCount = none) :
      Verdict h stats policyCount now (.noViablePolicy, (h.fold stats .unhealthy now).takeFallback)

theorem decideRecoveryProbe_cases (h : PeerHealth) (stats : Stats) (sample : Sample) (now : ℕ) :
    (∃ policy, h.ProbeDue stats sample now policy ∧
      (h.fold stats sample now).takeFallback.decideRecoveryProbe h.activePolicy
          (decide (h.lastTxPackets < stats.traffic.txPackets)) (h.recoveryAttemptDue now) now =
        (.switch policy .recoveryProbe,
          (h.fold stats sample now).takeFallback.switchTo policy now true)) ∨
    ((∀ policy, ¬h.ProbeDue stats sample now policy) ∧
      (h.fold stats sample now).takeFallback.decideRecoveryProbe h.activePolicy
          (decide (h.lastTxPackets < stats.traffic.txPackets)) (h.recoveryAttemptDue now) now =
        (.stay, (h.fold stats sample now).takeFallback)) := by
  have hbest : (h.fold stats sample now).takeFallback.bestRecoveryPolicy h.activePolicy =
      (h.fold stats sample now).bestRecoveryPolicy h.activePolicy := rfl
  rw [decideRecoveryProbe, hbest]
  by_cases hsent : h.lastTxPackets < stats.traffic.txPackets
  · by_cases hdue : h.nextRecoveryAttemptAt ≤ now
    · rw [if_neg (by simp [hsent, recoveryAttemptDue, hdue])]
      cases hpolicy : (h.fold stats sample now).bestRecoveryPolicy h.activePolicy with
      | some policy =>
        exact .inl ⟨policy, ⟨hsent, hdue, fold_bestRecoveryPolicy.symm.trans hpolicy⟩, rfl⟩
      | none =>
        refine .inr ⟨fun policy hprobe => ?_, rfl⟩
        cases hpolicy.symm.trans hprobe.best
    · rw [if_pos (by simp [recoveryAttemptDue, hdue])]
      exact .inr ⟨fun policy hprobe => hdue hprobe.due, rfl⟩
  · rw [if_pos (by simp [hsent])]
    exact .inr ⟨fun policy hprobe => hsent hprobe.sentMore, rfl⟩

theorem decideAfterUnhealthy_verdict {policyCount : ℕ} (seen : h.hasObservedStats = true)
    (many : 1 < policyCount) (judged : h.classify stats now = .unhealthy) :
    Verdict h stats policyCount now ((h.fold stats .unhealthy now).decideAfterUnhealthy
      h.activePolicy policyCount (decide (h.lastTxPackets < stats.traffic.txPackets))
      (h.recoveryAttemptDue now) now) := by
  rw [decideAfterUnhealthy, fold_recoveryFallback]
  cases hfallback : h.recoveryFallback.filter (fun f => f < policyCount && f ≠ h.activePolicy) with
  | some fallback =>
    obtain ⟨hsome, hvalid⟩ := Option.filter_eq_some_iff.mp hfallback
    simp only [Bool.and_eq_true, decide_eq_true_eq] at hvalid
    exact .recoveryFailed seen many judged hsome hvalid.1 hvalid.2
  | none =>
    dsimp only
    cases hcooled : h.cooldownElapsed now with
    | false =>
      have hcooled' : ({ h.fold stats .unhealthy now with recoveryFallback := none } :
          PeerHealth).cooldownElapsed now = false := fold_cooldownElapsed.trans hcooled
      rw [hcooled']
      exact .hot seen many judged hfallback hcooled
    | true =>
      have hcooled' : ({ h.fold stats .unhealthy now with recoveryFallback := none } :
          PeerHealth).cooldownElapsed now = true := fold_cooldownElapsed.trans hcooled
      have hblamed : h.Blamed stats policyCount now := ⟨judged, hfallback, hcooled⟩
      rw [hcooled']
      rcases h.decideRecoveryProbe_cases stats .unhealthy now with
        ⟨policy, hprobe, heq⟩ | ⟨hpatient, heq⟩
      · rw [takeFallback] at heq
        simp only [Bool.not_true, Bool.false_eq_true, if_false, heq]
        exact .blamedProbe seen many hblamed hprobe
      · rw [takeFallback] at heq
        simp only [Bool.not_true, Bool.false_eq_true, if_false, heq]
        rw [decideFailover]
        cases hfailed : (h.fold stats .unhealthy now).policyFailed h.activePolicy with
        | false =>
          have hfailed' : ({ h.fold stats .unhealthy now with recoveryFallback := none } :
              PeerHealth).policyFailed h.activePolicy = false := hfailed
          rw [hfailed']
          exact .suspect seen many hblamed hfailed
        | true =>
          have hfailed' : ({ h.fold stats .unhealthy now with recoveryFallback := none } :
              PeerHealth).policyFailed h.activePolicy = true := hfailed
          rw [hfailed', if_pos rfl]
          have hbest' : ({ h.fold stats .unhealthy now with recoveryFallback := none } :
              PeerHealth).bestFailoverPolicy h.activePolicy policyCount =
                (h.fold stats .unhealthy now).bestFailoverPolicy h.activePolicy policyCount := rfl
          rw [hbest']
          cases hbest : (h.fold stats .unhealthy now).bestFailoverPolicy h.activePolicy
              policyCount with
          | some policy => exact .failover seen many hblamed hpatient hfailed hbest
          | none =>
            dsimp only
            split
            · rename_i hgone
              have hunproven : (h.fold stats .unhealthy now).hasAnyRouteSuccess = false := by
                simp only [Bool.and_eq_true, Bool.not_eq_true'] at hgone
                exact hgone.1
              exact .inactive seen many hblamed hbest hunproven
            · exact .noViable seen many hblamed hbest

/-- Whatever `observe` answers is a verdict on the state that is aligned with the route list. -/
theorem observe_verdict (profile : Profile) (h : PeerHealth) (stats : Stats)
    (routes : List RouteKey) (now : ℕ) :
    Verdict (h.syncPolicies profile h.activePolicy routes) stats routes.length now
      (h.observe profile stats routes now) := by
  rw [observe]
  generalize h.syncPolicies profile h.activePolicy routes = h'
  dsimp only
  split
  · rename_i hfew
    exact .single hfew
  rename_i hmany
  rw [Nat.not_le] at hmany
  cases hseen : h'.hasObservedStats with
  | false => exact .first hseen
  | true =>
    simp only [Bool.not_true, Bool.false_eq_true, if_false]
    rw [fold_activePolicy]
    cases hsample : h'.classify stats now with
    | healthy =>
      rcases h'.decideRecoveryProbe_cases stats .healthy now with
        ⟨policy, hprobe, heq⟩ | ⟨hpatient, heq⟩
      · rw [takeFallback] at heq
        exact heq ▸ .healthyProbe hseen hmany hsample hprobe
      · rw [takeFallback] at heq
        exact heq ▸ .healthy hseen hmany hsample hpatient
    | idle => exact .idle hseen hmany hsample
    | unhealthy => exact decideAfterUnhealthy_verdict hseen hmany hsample

end PeerHealth

/-! ### Runs -/

abbrev RouteKeyVec (profile : Profile) :=
  { routes : List RouteKey // ∀ capacity ∈ profile.maxRoutes, routes.length ≤ capacity }

inductive HealthCall (profile : Profile)
  | observe (stats : Stats) (routes : RouteKeyVec profile)
  | syncPolicies (activePolicy : ℕ) (routes : RouteKeyVec profile)

structure Timed where
  health : PeerHealth
  now : ℕ

namespace Timed

variable {profile : Profile} {γ : Type}

def start (activePolicy created jitter : ℕ) : Timed :=
  ⟨.newWithJitter activePolicy created jitter, created⟩

def call (s : Timed) (wait : ℕ) : HealthCall profile → HealthDecision × Timed
  | .observe stats routes =>
    let (decision, h) := s.health.observe profile stats routes (s.now + wait)
    (decision, ⟨h, s.now + wait⟩)
  | .syncPolicies activePolicy routes =>
    (.stay, ⟨s.health.syncPolicies profile activePolicy routes, s.now + wait⟩)

def observations (routes : RouteKeyVec profile) (samples : List (ℕ × Stats)) :
    List (ℕ × HealthCall profile) :=
  samples.map fun (wait, stats) => (wait, .observe stats routes)

def watch (note : γ → Timed → HealthCall profile → HealthDecision → Timed → γ) (s : Timed × γ)
    (op : ℕ × HealthCall profile) : Timed × γ :=
  let (decision, t) := s.1.call op.1 op.2
  (t, note s.2 s.1 op.2 decision t)

theorem watch_eq (note : γ → Timed → HealthCall profile → HealthDecision → Timed → γ)
    (s : Timed × γ) (op : ℕ × HealthCall profile) :
    watch note s op = ((s.1.call op.1 op.2).2,
      note s.2 s.1 op.2 (s.1.call op.1 op.2).1 (s.1.call op.1 op.2).2) := rfl

def Throughout (note : γ → Timed → HealthCall profile → HealthDecision → Timed → γ)
    (P : Timed × γ → ℕ × HealthCall profile → Prop) :
    Timed × γ → List (ℕ × HealthCall profile) → Prop
  | _, [] => True
  | s, op :: ops => P s op ∧ Throughout note P (watch note s op) ops

instance Throughout.decidable (note : γ → Timed → HealthCall profile → HealthDecision → Timed → γ)
    (P : Timed × γ → ℕ × HealthCall profile → Prop) [∀ s op, Decidable (P s op)] :
    ∀ s ops, Decidable (Throughout note P s ops)
  | _, [] => isTrue trivial
  | s, op :: ops =>
    haveI := Throughout.decidable note P (watch note s op) ops
    inferInstanceAs (Decidable (P s op ∧ _))

variable {note : γ → Timed → HealthCall profile → HealthDecision → Timed → γ}
  {P Q : Timed × γ → ℕ × HealthCall profile → Prop} {s : Timed × γ}
  {ops : List (ℕ × HealthCall profile)}

theorem Throughout.invariant {I : Timed × γ → Prop}
    (hstep : ∀ s op, I s → P s op → I (watch note s op) ∧ Q s op) (hs : I s)
    (hp : Throughout note P s ops) : I (ops.foldl (watch note) s) ∧ Throughout note Q s ops := by
  induction ops generalizing s with
  | nil => exact ⟨hs, trivial⟩
  | cons op ops ih =>
    obtain ⟨hnext, hq⟩ := hstep s op hs hp.1
    obtain ⟨hend, hrest⟩ := ih hnext hp.2
    exact ⟨hend, hq, hrest⟩

theorem Throughout.of_invariant {I : Timed × γ → Prop}
    (hstep : ∀ s op, I s → I (watch note s op) ∧ Q s op) (hs : I s) : Throughout note Q s ops := by
  induction ops generalizing s with
  | nil => trivial
  | cons op ops ih => exact ⟨(hstep s op hs).2, ih (hstep s op hs).1⟩

theorem Throughout.congr (hstep : ∀ s op, P s op ↔ Q s op) :
    Throughout note P s ops ↔ Throughout note Q s ops := by
  induction ops generalizing s with
  | nil => exact Iff.rfl
  | cons op ops ih => exact and_congr (hstep s op) ih

end Timed

end Tendrilix.Control

/-! ### Sample traffic -/

namespace Tendrilix.Sample

open Control

def counters (tx rx : ℕ) : Device.Stats := ⟨none, { txPackets := tx, rxPackets := rx }, none⟩

def routeKeyVec (routes : List RouteKey) : RouteKeyVec .alloc := ⟨routes, nofun⟩

def routeKeys : RouteKeyVec .alloc := routeKeyVec [.direct none, .relay (key 3), .relay (key 4)]

def unanswered (routes : RouteKeyVec .alloc) (waits : List ℕ) : List (ℕ × HealthCall .alloc) :=
  waits.mapIdx fun i wait => (secs wait, .observe (counters (i + 1) 0) routes)

end Tendrilix.Sample
