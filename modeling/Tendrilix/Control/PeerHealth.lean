import Tendrilix.Device.Model

/-!
# Route health of a peer

The reconciler samples the traffic counters of a peer and folds each sample into the state below,
which decides whether to stay on the active route policy or to switch to another one. Instants and
durations are nanoseconds.
-/

namespace Tendrilix

/-- `MAX_ROUTES`, which bounds the routes of a peer in builds without an allocator. -/
def Profile.maxRoutes : Profile → Option ℕ
  | alloc => none
  | _ => some 4

namespace Control

open Device (Stats)

def secs (n : ℕ) : ℕ := n * 1000000000

def policyFailureScore : ℕ := 4
def unhealthyScoreDelta : ℕ := 2
def healthyScoreDelta : ℕ := 1
def minPolicySwitchInterval : ℕ := secs 120
def initialFailoverGrace : ℕ := secs 15
def maxSwitchBackoffShift : ℕ := 3
def switchBackoffResetInterval : ℕ := secs 600
def recoveryProbeInterval : ℕ := secs 120
def policyFailureDecayInterval : ℕ := secs 600
def maxHealthJitter : ℕ := 15
def inboundSilenceTimeout : ℕ := secs 25

/-- The identity of a route policy, whatever its index. -/
inductive RouteKey
  | direct (endpoint : Option SocketAddr)
  | relay (relay : PublicKey)
  deriving DecidableEq

inductive SwitchReason
  | failover
  | recoveryProbe
  | recoveryFailed
  deriving DecidableEq

inductive HealthDecision
  | stay
  | switch (nextPolicy : ℕ) (reason : SwitchReason)
  | peerInactive
  | noViablePolicy
  deriving DecidableEq

inductive PeerLiveness
  | unknown
  | reachable
  | likelyInactive
  deriving DecidableEq

inductive PolicyState
  | unknown
  | healthy
  | suspect
  | failed
  deriving DecidableEq

inductive Sample
  | healthy
  | unhealthy
  | idle
  deriving DecidableEq

structure PolicyHealth where
  suspicion : ℕ := 0
  consecutiveFailures : ℕ := 0
  lastSuccess : Option ℕ := none
  lastFailure : Option ℕ := none
  state : PolicyState := .unknown

namespace PolicyHealth

def stateOf (suspicion : ℕ) : PolicyState :=
  if policyFailureScore ≤ suspicion then .failed else .suspect

def recordSuccess (p : PolicyHealth) (now : ℕ) : PolicyHealth :=
  { p with
    suspicion := p.suspicion - healthyScoreDelta
    consecutiveFailures := 0
    lastSuccess := some now
    state := .healthy }

def recordFailure (p : PolicyHealth) (now : ℕ) : PolicyHealth :=
  let suspicion := min (p.suspicion + unhealthyScoreDelta) policyFailureScore
  { p with
    suspicion := suspicion
    consecutiveFailures := min (p.consecutiveFailures + 1) 255
    lastFailure := some now
    state := stateOf suspicion }

def isFailed (p : PolicyHealth) : Bool := policyFailureScore ≤ p.suspicion || p.state = .failed

/-- One step of suspicion is shed for each interval since `anchor`. -/
def decayLoop (now : ℕ) : ℕ → ℕ → ℕ × ℕ
  | 0, anchor => (0, anchor)
  | suspicion + 1, anchor =>
    if policyFailureDecayInterval ≤ now - anchor then
      decayLoop now suspicion (anchor + policyFailureDecayInterval)
    else (suspicion + 1, anchor)

def decay (p : PolicyHealth) (now : ℕ) : PolicyHealth :=
  match p.lastFailure with
  | none => p
  | some anchor =>
    if p.suspicion = 0 then p
    else
      let (suspicion, anchor) := decayLoop now p.suspicion anchor
      if suspicion = 0 then { p with suspicion := 0, lastFailure := none, state := .unknown }
      else { p with
        suspicion := suspicion
        lastFailure := some anchor
        state := stateOf suspicion }

end PolicyHealth

structure PolicyHealthEntry where
  route : RouteKey
  health : PolicyHealth := {}

structure PeerHealth where
  activePolicy : ℕ
  liveness : PeerLiveness := .unknown
  consecutivePeerFailures : ℕ := 0
  lastSwitch : ℕ
  switchCount : ℕ := 0
  nextRecoveryAttemptAt : ℕ
  lastTxPackets : ℕ := 0
  lastRxPackets : ℕ := 0
  lastInboundAt : Option ℕ := none
  hasObservedStats : Bool := false
  policyHealth : List PolicyHealthEntry := []
  recoveryFallback : Option ℕ := none
  jitter : ℕ

namespace PeerHealth

/-- `jitter_from_rng`, for the `u64` that is drawn. -/
def jitterFrom (draw : ℕ) : ℕ := secs (draw % (maxHealthJitter + 1))

def newWithJitter (activePolicy now jitter : ℕ) : PeerHealth where
  activePolicy := activePolicy
  lastSwitch := now
  nextRecoveryAttemptAt := now + recoveryProbeInterval + jitter
  jitter := jitter

def activeRoute (h : PeerHealth) : Option RouteKey := h.policyHealth[h.activePolicy]?.map (·.route)

/-- The entry that a route keeps across a change of the policy list. -/
def entryFor (h : PeerHealth) (route : RouteKey) : PolicyHealthEntry :=
  (h.policyHealth.find? (·.route = route)).getD { route := route }

/-- Entries that do not fit are left out. -/
def syncPolicies (profile : Profile) (h : PeerHealth) (activePolicy : ℕ) (routes : List RouteKey) :
    PeerHealth :=
  let next := routes.map h.entryFor
  { h with
    policyHealth := profile.maxRoutes.elim next next.take
    activePolicy := min activePolicy (routes.length - 1)
    recoveryFallback := h.recoveryFallback.filter (· < routes.length) }

def syncActivePolicy (h : PeerHealth) (activePolicy : ℕ) : PeerHealth :=
  { h with activePolicy := activePolicy }

def resetPolicyState (h : PeerHealth) : PeerHealth :=
  { h with policyHealth := [], recoveryFallback := none }

def inboundSilence (h : PeerHealth) (now : ℕ) : ℕ := now - h.lastInboundAt.getD h.lastSwitch

def classify (h : PeerHealth) (stats : Stats) (now : ℕ) : Sample :=
  if h.lastRxPackets < stats.traffic.rxPackets then .healthy
  else if h.lastTxPackets < stats.traffic.txPackets ∧
      inboundSilenceTimeout ≤ h.inboundSilence now then .unhealthy
  else .idle

def scheduleNextRecoveryAttempt (h : PeerHealth) (now : ℕ) : PeerHealth :=
  { h with nextRecoveryAttemptAt := now + recoveryProbeInterval + h.jitter }

def recordActivity (h : PeerHealth) (now : ℕ) : PeerHealth := h.scheduleNextRecoveryAttempt now

def hasActivity (stats : Stats) : Bool :=
  0 < stats.traffic.txPackets || 0 < stats.traffic.rxPackets

/-- The health of one policy is changed in place. -/
def modifyHealth (h : PeerHealth) (policy : ℕ) (f : PolicyHealth → PolicyHealth) : PeerHealth :=
  { h with policyHealth := h.policyHealth.modify policy fun e => { e with health := f e.health } }

def recordSample (h : PeerHealth) (policy : ℕ) (sample : Sample) (now : ℕ) : PeerHealth :=
  match sample with
  | .healthy =>
    ({ h.modifyHealth policy (·.recordSuccess now) with
      liveness := .reachable
      consecutivePeerFailures := 0 } : PeerHealth).recordActivity now
  | .unhealthy =>
    ({ h with consecutivePeerFailures := min (h.consecutivePeerFailures + 1) 255 } :
      PeerHealth).modifyHealth policy (·.recordFailure now)
  | .idle => h

def policyFailed (h : PeerHealth) (policy : ℕ) : Bool :=
  h.policyHealth[policy]?.any (·.health.isFailed)

/-- The key of `min_by_key`: suspicion first, then the index. -/
def preference (h : PeerHealth) (idx : ℕ) : ℕ ×ₗ ℕ :=
  toLex ((h.policyHealth[idx]?.map (·.health.suspicion)).getD 0, idx)

def bestRecoveryPolicy (h : PeerHealth) (activePolicy : ℕ) : Option ℕ :=
  if activePolicy = 0 then none
  else
    let activeFallbackValidated :=
      (h.policyHealth[activePolicy]?.bind (·.health.lastSuccess)).any (h.lastSwitch ≤ ·)
    ((List.range activePolicy).filter fun idx =>
      !h.policyFailed idx || activeFallbackValidated).argmin h.preference

def bestFailoverPolicy (h : PeerHealth) (activePolicy policyCount : ℕ) : Option ℕ :=
  ((List.range policyCount).filter fun idx =>
    idx ≠ activePolicy && !h.policyFailed idx).argmin h.preference

def hasAnyRouteSuccess (h : PeerHealth) : Bool :=
  h.policyHealth.any (·.health.lastSuccess.isSome)

def recoveryAttemptDue (h : PeerHealth) (now : ℕ) : Bool := h.nextRecoveryAttemptAt ≤ now

def currentSwitchCooldown (h : PeerHealth) : ℕ :=
  if h.switchCount = 0 then initialFailoverGrace + h.jitter
  else
    let shift := min (h.switchCount - 1) maxSwitchBackoffShift
    minPolicySwitchInterval * (1 <<< shift) + h.jitter

def cooldownElapsed (h : PeerHealth) (now : ℕ) : Bool :=
  h.currentSwitchCooldown ≤ now - h.lastSwitch

def switchTo (h : PeerHealth) (policy now : ℕ) (recoveryProbe : Bool) : PeerHealth :=
  let previous := h.activePolicy
  let switchCount := if switchBackoffResetInterval ≤ now - h.lastSwitch then 0 else h.switchCount
  ({ h with
    switchCount := min (switchCount + 1) (2 ^ 32 - 1)
    activePolicy := policy
    lastSwitch := now
    lastInboundAt := none
    recoveryFallback := if recoveryProbe then some previous else none } :
    PeerHealth).scheduleNextRecoveryAttempt now

def decideRecoveryProbe (h : PeerHealth) (activePolicy : ℕ) (sentMore recoveryDue : Bool) (now : ℕ) :
    HealthDecision × PeerHealth :=
  if !sentMore || !recoveryDue then (.stay, h)
  else
    match h.bestRecoveryPolicy activePolicy with
    | some nextPolicy => (.switch nextPolicy .recoveryProbe, h.switchTo nextPolicy now true)
    | none => (.stay, h)

/-- The last part of `decide_after_unhealthy`, once a probe and the cooldown are out of the way. -/
def decideFailover (h : PeerHealth) (activePolicy policyCount now : ℕ) : HealthDecision × PeerHealth :=
  if h.policyFailed activePolicy then
    match h.bestFailoverPolicy activePolicy policyCount with
    | some nextPolicy => (.switch nextPolicy .failover, h.switchTo nextPolicy now false)
    | none =>
      if !h.hasAnyRouteSuccess && 2 < h.consecutivePeerFailures then
        (.peerInactive, { h with liveness := .likelyInactive })
      else (.noViablePolicy, h)
  else (.stay, h)

def decideAfterUnhealthy (h : PeerHealth) (activePolicy policyCount : ℕ)
    (sentMore recoveryDue : Bool) (now : ℕ) : HealthDecision × PeerHealth :=
  let fallback := h.recoveryFallback.filter fun fallback =>
    fallback < policyCount && fallback ≠ activePolicy
  let h := { h with recoveryFallback := none }
  match fallback with
  | some fallback => (.switch fallback .recoveryFailed, h.switchTo fallback now false)
  | none =>
    if !h.cooldownElapsed now then (.stay, h)
    else
      match h.decideRecoveryProbe activePolicy sentMore recoveryDue now with
      | (.stay, h) => h.decideFailover activePolicy policyCount now
      | decided => decided

/-- The first sample only sets the counters. -/
def observeFirst (h : PeerHealth) (stats : Stats) (now : ℕ) : PeerHealth :=
  let h := { h with
    hasObservedStats := true
    lastTxPackets := stats.traffic.txPackets
    lastRxPackets := stats.traffic.rxPackets
    lastInboundAt := if 0 < stats.traffic.rxPackets then some now else h.lastInboundAt }
  if hasActivity stats then h.recordActivity now else h

/-- The counters are read, idle routes age and the sample counts for the active route. -/
def fold (h : PeerHealth) (stats : Stats) (sample : Sample) (now : ℕ) : PeerHealth :=
  ({ h with
    lastInboundAt := if h.lastRxPackets < stats.traffic.rxPackets then some now else h.lastInboundAt
    lastTxPackets := stats.traffic.txPackets
    lastRxPackets := stats.traffic.rxPackets
    policyHealth := h.policyHealth.map fun e => { e with health := e.health.decay now } } :
    PeerHealth).recordSample h.activePolicy sample now

def observe (profile : Profile) (h : PeerHealth) (stats : Stats) (routes : List RouteKey) (now : ℕ) :
    HealthDecision × PeerHealth :=
  let h := h.syncPolicies profile h.activePolicy routes
  if routes.length ≤ 1 then (.stay, h)
  else if !h.hasObservedStats then (.stay, h.observeFirst stats now)
  else
    let sentMore := decide (h.lastTxPackets < stats.traffic.txPackets)
    let recoveryWasDue := h.recoveryAttemptDue now
    let sample := h.classify stats now
    let h := h.fold stats sample now
    match sample with
    | .healthy =>
      ({ h with recoveryFallback := none } : PeerHealth).decideRecoveryProbe h.activePolicy sentMore
        recoveryWasDue now
    | .idle => (.stay, h)
    | .unhealthy => h.decideAfterUnhealthy h.activePolicy routes.length sentMore recoveryWasDue now

/-! ### What a sample changes -/

def routes (h : PeerHealth) : List RouteKey := h.policyHealth.map (·.route)

theorem activeRoute_eq (h : PeerHealth) : h.activeRoute = h.routes[h.activePolicy]? := by
  rw [activeRoute, routes, List.getElem?_map]

theorem entryFor_route (h : PeerHealth) (route : RouteKey) : (h.entryFor route).route = route := by
  rw [entryFor]
  cases hfind : h.policyHealth.find? (·.route = route) with
  | none => rfl
  | some entry => simpa using List.find?_some hfind

theorem syncPolicies_routes {profile : Profile} (h : PeerHealth) (activePolicy : ℕ)
    {routes : List RouteKey} (hfits : ∀ capacity ∈ profile.maxRoutes, routes.length ≤ capacity) :
    (h.syncPolicies profile activePolicy routes).routes = routes := by
  have hroutes : (routes.map h.entryFor).map (·.route) = routes := by
    simp [Function.comp_def, entryFor_route]
  rw [PeerHealth.routes, syncPolicies]
  dsimp only
  cases hmax : profile.maxRoutes with
  | none => exact hroutes
  | some capacity =>
    rw [Option.elim_some, List.take_of_length_le, hroutes]
    simpa using hfits capacity hmax

def Follows (policyCount : ℕ) (h : PeerHealth) (d : HealthDecision × PeerHealth) : Prop :=
  d.2.routes = h.routes ∧
    match d.1 with
    | .switch nextPolicy _ => d.2.activePolicy = nextPolicy ∧ nextPolicy < policyCount
    | _ => d.2.activePolicy = h.activePolicy

theorem bestRecoveryPolicy_lt {h : PeerHealth} {activePolicy nextPolicy : ℕ}
    (hbest : h.bestRecoveryPolicy activePolicy = some nextPolicy) : nextPolicy < activePolicy := by
  rw [bestRecoveryPolicy] at hbest
  split at hbest
  · cases hbest
  · have hmem := List.argmin_mem hbest
    simpa using (List.mem_filter.mp hmem).1

theorem bestFailoverPolicy_lt {h : PeerHealth} {activePolicy policyCount nextPolicy : ℕ}
    (hbest : h.bestFailoverPolicy activePolicy policyCount = some nextPolicy) :
    nextPolicy < policyCount := by
  have hmem := List.argmin_mem hbest
  simpa using (List.mem_filter.mp hmem).1

theorem decideRecoveryProbe_follows {h : PeerHealth} {activePolicy policyCount : ℕ}
    (hactive : activePolicy ≤ policyCount) (sentMore recoveryDue : Bool) (now : ℕ) :
    Follows policyCount h (h.decideRecoveryProbe activePolicy sentMore recoveryDue now) := by
  rw [decideRecoveryProbe]
  split
  · exact ⟨rfl, rfl⟩
  · split
    · rename_i nextPolicy hbest
      exact ⟨rfl, rfl, (bestRecoveryPolicy_lt hbest).trans_le hactive⟩
    · exact ⟨rfl, rfl⟩

theorem decideFailover_follows (h : PeerHealth) (activePolicy policyCount now : ℕ) :
    Follows policyCount h (h.decideFailover activePolicy policyCount now) := by
  rw [decideFailover]
  split
  · split
    · rename_i nextPolicy hbest
      exact ⟨rfl, rfl, bestFailoverPolicy_lt hbest⟩
    · split
      · exact ⟨rfl, rfl⟩
      · exact ⟨rfl, rfl⟩
  · exact ⟨rfl, rfl⟩

theorem decideAfterUnhealthy_follows {h : PeerHealth} {activePolicy policyCount : ℕ}
    (hactive : activePolicy ≤ policyCount) (sentMore recoveryDue : Bool) (now : ℕ) :
    Follows policyCount h
      (h.decideAfterUnhealthy activePolicy policyCount sentMore recoveryDue now) := by
  rw [decideAfterUnhealthy]
  split
  · rename_i fallback hfallback
    have hlt : fallback < policyCount := by
      have hkept := (Option.filter_eq_some_iff.mp hfallback).2
      simp only [Bool.and_eq_true, decide_eq_true_eq] at hkept
      exact hkept.1
    exact ⟨rfl, rfl, hlt⟩
  · split
    · exact ⟨rfl, rfl⟩
    · have hprobe := decideRecoveryProbe_follows (h := { h with recoveryFallback := none }) hactive
        sentMore recoveryDue now
      split
      · rename_i h' hdecided
        rw [hdecided] at hprobe
        obtain ⟨hroutes, hsame⟩ := decideFailover_follows h' activePolicy policyCount now
        refine ⟨hroutes.trans hprobe.1, ?_⟩
        split at hsame
        · exact hsame
        · exact hsame.trans hprobe.2
      · exact hprobe

theorem modifyHealth_routes (h : PeerHealth) (policy : ℕ) (f : PolicyHealth → PolicyHealth) :
    (h.modifyHealth policy f).routes = h.routes := by
  apply List.ext_getElem?
  intro i
  simp only [routes, modifyHealth, List.getElem?_map, List.getElem?_modify]
  cases h.policyHealth[i]? with
  | none => rfl
  | some entry =>
    simp only [Option.map_eq_map, Option.map_some]
    split <;> rfl

theorem recordSample_routes (h : PeerHealth) (policy : ℕ) (sample : Sample) (now : ℕ) :
    (h.recordSample policy sample now).routes = h.routes := by
  cases sample with
  | healthy => exact modifyHealth_routes h policy (·.recordSuccess now)
  | unhealthy => exact modifyHealth_routes _ policy (·.recordFailure now)
  | idle => rfl

theorem fold_routes (h : PeerHealth) (stats : Stats) (sample : Sample) (now : ℕ) :
    (h.fold stats sample now).routes = h.routes := by
  rw [fold, recordSample_routes]
  simp [routes, Function.comp_def]

theorem fold_activePolicy (h : PeerHealth) (stats : Stats) (sample : Sample) (now : ℕ) :
    (h.fold stats sample now).activePolicy = h.activePolicy := by
  cases sample <;> rfl

theorem observeFirst_follows (h : PeerHealth) (stats : Stats) (policyCount now : ℕ) :
    Follows policyCount h (.stay, h.observeFirst stats now) := by
  rw [observeFirst]
  split
  · exact ⟨rfl, rfl⟩
  · exact ⟨rfl, rfl⟩

theorem observe_follows (profile : Profile) {h : PeerHealth} {routes : List RouteKey}
    (hactive : h.activePolicy < routes.length) (stats : Stats) (now : ℕ) :
    Follows routes.length (h.syncPolicies profile h.activePolicy routes)
      (h.observe profile stats routes now) := by
  have hclamped : (h.syncPolicies profile h.activePolicy routes).activePolicy < routes.length :=
    (min_le_left _ _).trans_lt hactive
  rw [observe]
  generalize h.syncPolicies profile h.activePolicy routes = h' at hclamped ⊢
  dsimp only
  have hfold : ∀ sample, (h'.fold stats sample now).activePolicy ≤ routes.length :=
    fun sample => (fold_activePolicy h' stats sample now).trans_le hclamped.le
  have hsame : ∀ sample {d}, Follows routes.length (h'.fold stats sample now) d →
      Follows routes.length h' d := by
    intro sample d hd
    rw [Follows, fold_routes, fold_activePolicy] at hd
    exact hd
  split
  · exact ⟨rfl, rfl⟩
  · split
    · exact observeFirst_follows h' stats routes.length now
    · split
      · exact hsame _ (decideRecoveryProbe_follows (hfold _) _ _ _)
      · exact hsame _ ⟨rfl, rfl⟩
      · exact hsame _ (decideAfterUnhealthy_follows (hfold _) _ _ _)

end PeerHealth

end Control

end Tendrilix
