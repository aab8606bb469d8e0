import Tendrilix.Control.HealthVerdict

/-!
# Whose silence is measured

The silence of a route is measured from the last packet heard, else from the last switch. A change of
the route list may put another route in the active place without starting this clock anew.
-/

namespace Tendrilix.Control

open Device (Stats)

namespace PeerHealth

def anchor (h : PeerHealth) : ℕ := h.lastInboundAt.getD h.lastSwitch

theorem inboundSilence_eq (h : PeerHealth) (now : ℕ) : h.inboundSilence now = now - h.anchor := rfl

variable {h h' : PeerHealth} {stats : Stats} {sample : Sample} {now policyCount : ℕ}

def Runs (h : PeerHealth) (now : ℕ) (h' : PeerHealth) : Prop :=
  h'.anchor = now ∨ h'.activeRoute = h.activeRoute ∧ h'.anchor = h.anchor

theorem fold_activeRoute (h : PeerHealth) (stats : Stats) (sample : Sample) (now : ℕ) :
    (h.fold stats sample now).activeRoute = h.activeRoute := by
  rw [activeRoute_eq, activeRoute_eq, fold_routes, fold_activePolicy]

theorem fold_runs (h : PeerHealth) (stats : Stats) (sample : Sample) (now : ℕ) :
    h.Runs now (h.fold stats sample now) := by
  by_cases hgrown : h.lastRxPackets < stats.traffic.rxPackets
  · left
    rw [anchor, fold_lastInboundAt, if_pos hgrown]
    rfl
  · right
    refine ⟨fold_activeRoute h stats sample now, ?_⟩
    rw [anchor, fold_lastInboundAt, if_neg hgrown, fold_lastSwitch]
    rfl

theorem observeFirst_runs (h : PeerHealth) (stats : Stats) (now : ℕ) :
    h.Runs now (h.observeFirst stats now) := by
  have hinbound : (h.observeFirst stats now).lastInboundAt =
      if 0 < stats.traffic.rxPackets then some now else h.lastInboundAt := by
    rw [observeFirst]
    split
    · rfl
    · rfl
  have hkeep : (h.observeFirst stats now).activeRoute = h.activeRoute ∧
      (h.observeFirst stats now).lastSwitch = h.lastSwitch := by
    rw [observeFirst]
    split
    · exact ⟨rfl, rfl⟩
    · exact ⟨rfl, rfl⟩
  by_cases hreceived : 0 < stats.traffic.rxPackets
  · left
    rw [anchor, hinbound, if_pos hreceived]
    rfl
  · right
    refine ⟨hkeep.1, ?_⟩
    rw [anchor, hinbound, if_neg hreceived, hkeep.2]
    rfl

theorem Verdict.runs {answer : HealthDecision × PeerHealth}
    (hverdict : Verdict h stats policyCount now answer) : h.Runs now answer.2 := by
  cases hverdict with
  | single few => exact .inr ⟨rfl, rfl⟩
  | first unseen => exact observeFirst_runs h stats now
  | idle seen many judged => exact fold_runs h stats .idle now
  | healthy seen many judged patient => exact fold_runs h stats .healthy now
  | hot seen many judged settled early => exact fold_runs h stats .unhealthy now
  | suspect seen many blamed works => exact fold_runs h stats .unhealthy now
  | inactive seen many blamed none unproven => exact fold_runs h stats .unhealthy now
  | noViable seen many blamed => exact fold_runs h stats .unhealthy now
  | healthyProbe | recoveryFailed | blamedProbe | failover => exact .inl rfl

end PeerHealth

structure RouteLog where
  since : ℕ
  route : Option RouteKey := none

namespace RouteLog

variable {profile : Profile} {l : RouteLog} {h h' : PeerHealth} {now : ℕ}

/-- The first route has been active from the creation on. -/
def note (l : RouteLog) (_ : Timed) (_ : HealthCall profile) (_ : HealthDecision) (t : Timed) :
    RouteLog :=
  match t.health.activeRoute with
  | none => l
  | some route =>
    if l.route = none ∨ l.route = some route then { l with route := some route }
    else { since := t.now, route := some route }

/-- The state in which a call judges the sample, once the route list is taken over. -/
def aligned (h : PeerHealth) : HealthCall profile → PeerHealth
  | .observe _ routes => h.syncPolicies profile h.activePolicy routes
  | .syncPolicies activePolicy routes => h.syncPolicies profile activePolicy routes

/-- The route list of the call leaves the active route in its place, unless the clock starts at this
very instant. -/
def KeepsRoute (s : Timed × RouteLog) (op : ℕ × HealthCall profile) : Prop :=
  s.2.route = none ∨ (aligned s.1.health op.2).activeRoute = none ∨
    (aligned s.1.health op.2).activeRoute = s.2.route ∨ s.1.now + op.1 ≤ s.1.health.anchor

instance (s : Timed × RouteLog) (op : ℕ × HealthCall profile) : Decidable (KeepsRoute s op) :=
  inferInstanceAs (Decidable (_ ∨ _ ∨ _ ∨ _))

/-- The clock has not started before the active route became active. -/
def Current (s : Timed × RouteLog) : Prop := s.2.since ≤ s.1.health.anchor

instance (s : Timed × RouteLog) : Decidable (Current s) := inferInstanceAs (Decidable (_ ≤ _))

/-- A sample is held against a route that has been active and silent for the whole window. -/
def Fair (s : Timed × RouteLog) (op : ℕ × HealthCall profile) : Prop :=
  ∀ stats routes, op.2 = .observe stats routes →
    (aligned s.1.health op.2).classify stats (s.1.now + op.1) = .unhealthy →
      s.2.since + inboundSilenceTimeout ≤ s.1.now + op.1 ∧
      inboundSilenceTimeout ≤ s.1.health.inboundSilence (s.1.now + op.1)

structure Invariant (s : Timed × RouteLog) : Prop where
  current : Current s
  since_le : s.2.since ≤ s.1.now
  known : ∀ route, s.1.health.activeRoute = some route → s.2.route = some route

theorem start_invariant (activePolicy created jitter : ℕ) :
    Invariant (Timed.start activePolicy created jitter, ⟨created, none⟩) where
  current := le_rfl
  since_le := le_rfl
  known := nofun

theorem aligned_anchor (h : PeerHealth) (op : HealthCall profile) :
    (aligned h op).anchor = h.anchor := by
  cases op <;> rfl

theorem call_runs (t : Timed) (wait : ℕ) (op : HealthCall profile) :
    (aligned t.health op).Runs (t.now + wait) (t.call wait op).2.health ∧
      (t.call wait op).2.now = t.now + wait := by
  cases op with
  | observe stats routes =>
    exact ⟨(PeerHealth.observe_verdict profile t.health stats routes (t.now + wait)).runs, rfl⟩
  | syncPolicies activePolicy routes => exact ⟨.inr ⟨rfl, rfl⟩, rfl⟩

theorem note_cases (l : RouteLog) (t t' : Timed) (op : HealthCall profile) (d : HealthDecision) :
    ((l.note t op d t').since = l.since ∨ (l.note t op d t').since = t'.now ∧ l.route ≠ none ∧
      t'.health.activeRoute ≠ none ∧ t'.health.activeRoute ≠ l.route) ∧
    ∀ route, t'.health.activeRoute = some route → (l.note t op d t').route = some route := by
  rw [note]
  cases hroute : t'.health.activeRoute with
  | none => exact ⟨.inl rfl, nofun⟩
  | some route =>
    dsimp only
    split
    · exact ⟨.inl rfl, fun _ hsome => hsome⟩
    · rename_i hother
      rw [not_or] at hother
      exact ⟨.inr ⟨rfl, hother.1, nofun, fun heq => hother.2 heq.symm⟩, fun _ hsome => hsome⟩

theorem Invariant.watch {s : Timed × RouteLog} (hs : Invariant s) (op : ℕ × HealthCall profile)
    (hkeeps : KeepsRoute s op) : Invariant (Timed.watch note s op) := by
  obtain ⟨hruns, hnow⟩ := call_runs s.1 op.1 op.2
  obtain ⟨hsince, hknown⟩ := s.2.note_cases s.1 (s.1.call op.1 op.2).2 op.2 (s.1.call op.1 op.2).1
  have hlater : s.2.since ≤ s.1.now + op.1 := hs.since_le.trans (Nat.le_add_right _ _)
  rw [Timed.watch_eq]
  refine ⟨?_, ?_, hknown⟩
  · rw [Current]
    dsimp only
    rcases hruns with hanchor | ⟨hroute, hanchor⟩
    · rcases hsince with hsince | ⟨hsince, -⟩
      · rw [hsince, hanchor]
        exact hlater
      · rw [hsince, hanchor, hnow]
    · rw [hanchor, aligned_anchor]
      rcases hsince with hsince | ⟨hsince, hnone, hactive, hother⟩
      · rw [hsince]
        exact hs.current
      · rw [hroute] at hactive hother
        rcases hkeeps with h | h | h | h
        · exact absurd h hnone
        · exact absurd h hactive
        · exact absurd h hother
        · rw [hsince, hnow]
          exact h
  · dsimp only
    rw [hnow]
    rcases hsince with hsince | ⟨hsince, -⟩
    · rw [hsince]
      exact hlater
    · rw [hsince, hnow]

theorem Invariant.fair {s : Timed × RouteLog} (hs : Invariant s) (op : ℕ × HealthCall profile) :
    Fair s op := by
  intro stats routes hop hsample
  rw [PeerHealth.classify] at hsample
  split at hsample
  · cases hsample
  split at hsample
  · rename_i hsilent
    have hsilence := hsilent.2
    rw [PeerHealth.inboundSilence_eq, aligned_anchor] at hsilence
    refine ⟨?_, hsilence⟩
    have hcurrent : s.2.since ≤ s.1.health.anchor := hs.current
    have hpos : 0 < inboundSilenceTimeout := by decide
    omega
  · cases hsample

/-- As long as no change of the route list puts another route in the active place, silence is
measured from no earlier than the moment the active route became active. -/
theorem run_silence_current (profile : Profile) (activePolicy created jitter : ℕ)
    (ops : List (ℕ × HealthCall profile))
    (hkeeps : Timed.Throughout note KeepsRoute
      (Timed.start activePolicy created jitter, ⟨created, none⟩) ops) :
    Current (ops.foldl (Timed.watch note)
      (Timed.start activePolicy created jitter, ⟨created, none⟩)) ∧
    Timed.Throughout note Fair (Timed.start activePolicy created jitter, ⟨created, none⟩) ops := by
  have hrun := Timed.Throughout.invariant (P := KeepsRoute) (Q := Fair)
    (I := Invariant) (fun s op hs hkeep => ⟨hs.watch op hkeep, hs.fair op⟩)
    (start_invariant activePolicy created jitter) hkeeps
  exact ⟨hrun.1.current, hrun.2⟩

end RouteLog

end Tendrilix.Control

namespace Tendrilix.Sample

open Control RouteLog

def relayKeys : RouteKeyVec .alloc := routeKeyVec [.relay (key 5), .relay (key 4)]

def reorderedKeys : RouteKeyVec .alloc := routeKeyVec [.relay (key 4), .direct none]

def droppedRoute : List (ℕ × HealthCall .alloc) :=
  [(0, .observe (counters 1 1) routeKeys), (secs 20, .syncPolicies 0 relayKeys)]

/-- The new active route is blamed after ten seconds. -/
theorem dropped_route_blamed :
    let s := droppedRoute.foldl (Timed.watch note) (Timed.start 0 0 0, ⟨0, none⟩)
    ¬Current s ∧ s.2.since = secs 20 ∧ s.1.now = secs 20 ∧
      (s.1.health.classify (counters 2 1) (secs 30) = .unhealthy) ∧
      ¬Fair s (secs 10, .observe (counters 2 1) relayKeys) := by
  have hblamed : (aligned
      (droppedRoute.foldl (Timed.watch note) (Timed.start 0 0 0, ⟨0, none⟩)).1.health
      (.observe (counters 2 1) relayKeys)).classify (counters 2 1)
      ((droppedRoute.foldl (Timed.watch note) (Timed.start 0 0 0, ⟨0, none⟩)).1.now + secs 10) =
        .unhealthy := by
    decide +kernel
  refine ⟨by decide +kernel, by decide +kernel, by decide +kernel, by decide +kernel, fun hfair => ?_⟩
  have hsince := (hfair (counters 2 1) _ rfl hblamed).1
  revert hsince
  decide +kernel

theorem run_silence_current_reordered :
    Current ([(0, .observe (counters 1 1) routeKeys),
        (secs 20, .syncPolicies 1 reorderedKeys),
        (secs 10, .observe (counters 2 1) reorderedKeys)].foldl
      (Timed.watch note) (Timed.start 0 0 0, ⟨0, none⟩)) :=
  (RouteLog.run_silence_current .alloc 0 0 0 _ (by decide +kernel)).1

end Tendrilix.Sample
