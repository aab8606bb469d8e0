import Tendrilix.Control.HealthVerdict

/-!
# How fast a peer can flap

Three clocks hold a switch back: the silence of the active route, the schedule of recovery probes and
a cooldown that doubles with every switch. The log below knows only the calls and their answers.
-/

namespace Tendrilix.Control

open Device (Stats)

structure SwitchLog where
  /-- The last switch, or the creation. -/
  since : ℕ
  reason : Option SwitchReason := none
  /-- The switches since a policy was last held for the reset interval. -/
  counted : ℕ := 0
  lastRx : ℕ := 0
  /-- A sample since the last switch showed inbound growth. -/
  grown : Bool := false

namespace SwitchLog

variable {profile : Profile}

def note (l : SwitchLog) (_ : Timed) (op : HealthCall profile) (d : HealthDecision) (t : Timed) :
    SwitchLog :=
  match op, d with
  | .observe stats _, .switch _ reason =>
    { since := t.now
      reason := some reason
      counted := (if switchBackoffResetInterval ≤ t.now - l.since then 0 else l.counted) + 1
      lastRx := stats.traffic.rxPackets }
  | .observe stats _, _ =>
    { l with
      lastRx := stats.traffic.rxPackets
      grown := l.grown || decide (l.lastRx < stats.traffic.rxPackets) }
  | .syncPolicies _ _, _ => l

structure Spaced (l : SwitchLog) (jitter now : ℕ) (reason : SwitchReason) : Prop where
  silence : l.since + inboundSilenceTimeout ≤ now
  interval : reason ≠ .recoveryFailed → l.since + (minPolicySwitchInterval + jitter) ≤ now
  backoff : reason = .failover → 1 ≤ l.counted →
    l.since + (minPolicySwitchInterval * 2 ^ min (l.counted - 1) 3 + jitter) ≤ now

structure Damped (l : SwitchLog) (jitter now : ℕ) (reason : SwitchReason) : Prop where
  spaced : l.reason ≠ none → l.Spaced jitter now reason
  failed : reason = .recoveryFailed → l.reason = some .recoveryProbe ∧ l.grown = false

structure Kept (l : SwitchLog) (jitter : ℕ) (h : PeerHealth) (now : ℕ) : Prop where
  jitter_eq : h.jitter = jitter
  lastSwitch_eq : h.lastSwitch = l.since
  since_le : l.since ≤ now
  count_eq : h.switchCount = min l.counted (2 ^ 32 - 1)
  recovery_le : l.since + (recoveryProbeInterval + jitter) ≤ h.nextRecoveryAttemptAt
  inbound_le : ∀ t, h.lastInboundAt = some t → l.since ≤ t
  probing : ∀ f, h.recoveryFallback = some f → 1 ≤ f ∧ h.hasObservedStats = true ∧
    l.reason = some .recoveryProbe ∧ l.grown = false ∧ l.lastRx = h.lastRxPackets

variable {l : SwitchLog} {jitter now : ℕ} {h : PeerHealth} {stats : Stats} {policyCount policy : ℕ}

theorem kept_start (activePolicy created jitter : ℕ) :
    Kept { since := created } jitter (.newWithJitter activePolicy created jitter) created where
  jitter_eq := rfl
  lastSwitch_eq := rfl
  since_le := le_rfl
  count_eq := rfl
  recovery_le := (Nat.add_assoc _ _ _).ge
  inbound_le := nofun
  probing := nofun

theorem Kept.later (hk : l.Kept jitter h now) (wait : ℕ) : l.Kept jitter h (now + wait) :=
  { hk with since_le := hk.since_le.trans (Nat.le_add_right _ _) }

theorem Kept.syncPolicies (hk : l.Kept jitter h now) (profile : Profile) (activePolicy : ℕ)
    (routes : List RouteKey) : l.Kept jitter (h.syncPolicies profile activePolicy routes) now where
  jitter_eq := hk.jitter_eq
  lastSwitch_eq := hk.lastSwitch_eq
  since_le := hk.since_le
  count_eq := hk.count_eq
  recovery_le := hk.recovery_le
  inbound_le := hk.inbound_le
  probing f hf := hk.probing f (Option.filter_eq_some_iff.mp hf).1

theorem Kept.fold (hk : l.Kept jitter h now) {sample : Sample}
    (hsample : h.classify stats now = sample) :
    Kept { l with
        lastRx := stats.traffic.rxPackets
        grown := l.grown || decide (l.lastRx < stats.traffic.rxPackets) } jitter
      (if sample = .idle then h.fold stats sample now else (h.fold stats sample now).takeFallback)
      now := by
  have hkeep : ∀ h' : PeerHealth, h'.jitter = h.jitter → h'.lastSwitch = h.lastSwitch →
      h'.switchCount = h.switchCount →
      h'.nextRecoveryAttemptAt = (h.fold stats sample now).nextRecoveryAttemptAt →
      h'.lastInboundAt = (h.fold stats sample now).lastInboundAt →
      (∀ f, h'.recoveryFallback = some f → sample = .idle ∧ h.recoveryFallback = some f ∧
        h'.hasObservedStats = h.hasObservedStats ∧
        h'.lastRxPackets = stats.traffic.rxPackets) →
      Kept { l with
        lastRx := stats.traffic.rxPackets
        grown := l.grown || decide (l.lastRx < stats.traffic.rxPackets) } jitter h' now := by
    intro h' hjitter hswitch hcount hnext hinbound hfallback
    refine ⟨hjitter.trans hk.jitter_eq, hswitch.trans hk.lastSwitch_eq, hk.since_le,
      hcount.trans hk.count_eq, ?_, ?_, ?_⟩
    · rw [hnext, PeerHealth.fold_nextRecoveryAttemptAt]
      have hle := hk.since_le
      have hold := hk.recovery_le
      split
      · rw [hk.jitter_eq]
        change l.since + _ ≤ _
        omega
      · exact hold
    · intro t ht
      rw [hinbound, PeerHealth.fold_lastInboundAt] at ht
      split at ht
      · cases ht
        exact hk.since_le
      · exact hk.inbound_le t ht
    · intro f hf
      obtain ⟨hidle, hold, hseen, hrx⟩ := hfallback f hf
      obtain ⟨hpos, hobserved, hreason, hgrown, hlast⟩ := hk.probing f hold
      refine ⟨hpos, hseen.trans hobserved, hreason, ?_, hrx.symm⟩
      rw [hidle, PeerHealth.classify] at hsample
      split at hsample
      · cases hsample
      · rename_i hstill
        change (l.grown || decide (l.lastRx < stats.traffic.rxPackets)) = false
        simp [hgrown, hlast, hstill]
  split
  · rename_i hidle
    exact hkeep _ (by simp) (by simp) (by simp) rfl rfl fun f hf =>
      ⟨hidle, by simpa using hf, by simp, by simp⟩
  · exact hkeep _ (by simp [PeerHealth.takeFallback]) (by simp [PeerHealth.takeFallback])
      (by simp [PeerHealth.takeFallback]) rfl rfl nofun

theorem Kept.observeFirst (hk : l.Kept jitter h now) (hunseen : h.hasObservedStats = false) :
    Kept { l with
        lastRx := stats.traffic.rxPackets
        grown := l.grown || decide (l.lastRx < stats.traffic.rxPackets) } jitter
      (h.observeFirst stats now) now := by
  have hfallback : ∀ f, h.recoveryFallback ≠ some f := by
    intro f hf
    have hseen := (hk.probing f hf).2.1
    rw [hunseen] at hseen
    cases hseen
  have hinbound : ∀ t, (if 0 < stats.traffic.rxPackets then some now else h.lastInboundAt) = some t →
      l.since ≤ t := by
    intro t ht
    split at ht
    · cases ht
      exact hk.since_le
    · exact hk.inbound_le t ht
  rw [PeerHealth.observeFirst]
  split
  · refine ⟨hk.jitter_eq, hk.lastSwitch_eq, hk.since_le, hk.count_eq, ?_, hinbound,
      fun f hf => absurd hf (hfallback f)⟩
    have hle := hk.since_le
    change l.since + _ ≤ now + recoveryProbeInterval + h.jitter
    rw [hk.jitter_eq]
    omega
  · exact ⟨hk.jitter_eq, hk.lastSwitch_eq, hk.since_le, hk.count_eq, hk.recovery_le, hinbound,
      fun f hf => absurd hf (hfallback f)⟩

theorem Kept.switchTo (hk : l.Kept jitter h now) {sample : Sample} {reason : SwitchReason}
    {probe : Bool} (hseen : h.hasObservedStats = true)
    (hprobe : probe = true → reason = .recoveryProbe ∧ 1 ≤ h.activePolicy) :
    Kept
      { since := now
        reason := some reason
        counted := (if switchBackoffResetInterval ≤ now - l.since then 0 else l.counted) + 1
        lastRx := stats.traffic.rxPackets } jitter
      ((h.fold stats sample now).takeFallback.switchTo policy now probe) now := by
  refine ⟨by simpa [PeerHealth.takeFallback] using hk.jitter_eq, rfl, le_rfl, ?_, ?_, nofun, ?_⟩
  · have hcount := hk.count_eq
    change min ((if switchBackoffResetInterval ≤ now - (h.fold stats sample now).lastSwitch then 0
      else (h.fold stats sample now).switchCount) + 1) (2 ^ 32 - 1) =
      min ((if switchBackoffResetInterval ≤ now - l.since then 0 else l.counted) + 1) (2 ^ 32 - 1)
    rw [PeerHealth.fold_lastSwitch, PeerHealth.fold_switchCount, hk.lastSwitch_eq]
    split
    · rfl
    · omega
  · change now + _ ≤ now + recoveryProbeInterval + (h.fold stats sample now).jitter
    rw [PeerHealth.fold_jitter, hk.jitter_eq]
    omega
  · intro f hf
    change (if probe = true then some (h.fold stats sample now).activePolicy else none) = some f at hf
    split at hf
    · rename_i hyes
      obtain ⟨rfl, hpos⟩ := hprobe hyes
      rw [PeerHealth.fold_activePolicy] at hf
      cases hf
      refine ⟨hpos, ?_, rfl, rfl, ?_⟩
      · change (h.fold stats sample now).hasObservedStats = true
        rw [PeerHealth.fold_hasObservedStats, hseen]
      · exact PeerHealth.fold_lastRxPackets.symm
    · cases hf

/-! ### Distances -/

theorem Kept.silence (hk : l.Kept jitter h now) (hsample : h.classify stats now = .unhealthy) :
    l.since + inboundSilenceTimeout ≤ now := by
  rw [PeerHealth.classify] at hsample
  split at hsample
  · cases hsample
  split at hsample
  · rename_i hsilent
    have hsilence := hsilent.2
    rw [PeerHealth.inboundSilence] at hsilence
    have hanchor : l.since ≤ h.lastInboundAt.getD h.lastSwitch := by
      cases hinbound : h.lastInboundAt with
      | none => exact hk.lastSwitch_eq.ge
      | some t => exact hk.inbound_le t hinbound
    have hpos : 0 < inboundSilenceTimeout := by decide
    omega
  · cases hsample

theorem Kept.probeDue (hk : l.Kept jitter h now) {sample : Sample}
    (hprobe : h.ProbeDue stats sample now policy) :
    l.since + (minPolicySwitchInterval + jitter) ≤ now := hk.recovery_le.trans hprobe.due

theorem Kept.cooled (hk : l.Kept jitter h now) (hcooled : h.cooldownElapsed now = true)
    (hcounted : 1 ≤ l.counted) :
    l.since + (minPolicySwitchInterval * 2 ^ min (l.counted - 1) 3 + jitter) ≤ now := by
  simp only [PeerHealth.cooldownElapsed, PeerHealth.currentSwitchCooldown,
    hk.jitter_eq, hk.lastSwitch_eq, hk.count_eq, decide_eq_true_eq] at hcooled
  have hne : min l.counted (2 ^ 32 - 1) ≠ 0 := by omega
  have hshift : min (min l.counted (2 ^ 32 - 1) - 1) maxSwitchBackoffShift =
      min (l.counted - 1) 3 := by
    change min _ 3 = _
    omega
  rw [if_neg hne, hshift, Nat.one_shiftLeft] at hcooled
  have hpos : 0 < minPolicySwitchInterval * 2 ^ min (l.counted - 1) 3 :=
    Nat.mul_pos (by decide) (Nat.two_pow_pos _)
  have hle := hk.since_le
  omega

theorem le_backoff (interval n : ℕ) : interval ≤ interval * 2 ^ n :=
  Nat.le_mul_of_pos_right _ (Nat.two_pow_pos n)

theorem Kept.damped (hk : l.Kept jitter h now) (hcounted : l.reason ≠ none → 1 ≤ l.counted)
    {reason : SwitchReason} {h' : PeerHealth}
    (hverdict : PeerHealth.Verdict h stats policyCount now (.switch policy reason, h')) :
    l.Damped jitter now reason := by
  have hlong : inboundSilenceTimeout ≤ minPolicySwitchInterval + jitter := by
    have hle : inboundSilenceTimeout ≤ minPolicySwitchInterval := by decide
    omega
  cases hverdict with
  | healthyProbe seen many judged probe =>
    have hdue := hk.probeDue probe
    exact ⟨fun _ => ⟨by omega, fun _ => hdue, nofun⟩, nofun⟩
  | recoveryFailed seen many judged fallback valid other =>
    obtain ⟨-, -, hreason, hgrown, -⟩ := hk.probing policy fallback
    exact ⟨fun _ => ⟨hk.silence judged, fun hne => absurd rfl hne, nofun⟩, fun _ => ⟨hreason, hgrown⟩⟩
  | blamedProbe seen many blamed probe =>
    exact ⟨fun _ => ⟨hk.silence blamed.unhealthy, fun _ => hk.probeDue probe, nofun⟩, nofun⟩
  | failover seen many blamed patient failed best =>
    refine ⟨fun hsome => ⟨hk.silence blamed.unhealthy, fun _ => ?_, fun _ => hk.cooled blamed.cooled⟩,
      nofun⟩
    have hcooled := hk.cooled blamed.cooled (hcounted hsome)
    have hle := le_backoff minPolicySwitchInterval (min (l.counted - 1) 3)
    omega

/-! ### Runs -/

structure Invariant (jitter : ℕ) (s : Timed × SwitchLog) : Prop where
  kept : s.2.Kept jitter s.1.health s.1.now
  counted : s.2.reason ≠ none → 1 ≤ s.2.counted

theorem note_counted (hcounted : l.reason ≠ none → 1 ≤ l.counted) (t t' : Timed)
    (op : HealthCall profile) (d : HealthDecision) :
    (l.note t op d t').reason ≠ none → 1 ≤ (l.note t op d t').counted := by
  cases op with
  | observe stats routes =>
    cases d with
    | switch policy reason => exact fun _ => Nat.le_add_left _ _
    | _ => exact hcounted
  | syncPolicies activePolicy routes => exact hcounted

theorem Kept.observe (hk : l.Kept jitter h now) (t : Timed) (routes : RouteKeyVec profile) :
    (l.note t (.observe stats routes) (h.observe profile stats routes now).1
      ⟨(h.observe profile stats routes now).2, now⟩).Kept jitter
      (h.observe profile stats routes now).2 now := by
  have hverdict := PeerHealth.observe_verdict profile h stats routes now
  have hsync := hk.syncPolicies profile h.activePolicy routes
  have hfewer : ∀ f, (h.syncPolicies profile h.activePolicy routes).recoveryFallback = some f →
      f < routes.1.length := by
    intro f hf
    simpa using (Option.filter_eq_some_iff.mp hf).2
  revert hverdict hsync hfewer
  generalize h.observe profile stats routes now = answer
  generalize h.syncPolicies profile h.activePolicy routes = h₁
  intro hverdict hsync hfewer
  cases hverdict with
  | single few =>
    refine { hsync with probing := fun f hf => ?_ }
    -- A single route leaves no room for the fallback of a probe.
    have hlt := hfewer f hf
    have hpos := (hsync.probing f hf).1
    omega
  | first unseen =>
    exact hsync.observeFirst unseen
  | idle seen many judged =>
    exact hsync.fold judged
  | healthy seen many judged patient =>
    exact hsync.fold judged
  | healthyProbe seen many judged probe =>
    refine hsync.switchTo seen fun _ => ⟨rfl, ?_⟩
    exact Nat.one_le_of_lt (PeerHealth.bestRecoveryPolicy_lt probe.best)
  | recoveryFailed seen many judged fallback valid other => exact hsync.switchTo seen nofun
  | hot seen many judged settled early =>
    exact hsync.fold judged
  | blamedProbe seen many blamed probe =>
    refine hsync.switchTo seen fun _ => ⟨rfl, ?_⟩
    exact Nat.one_le_of_lt (PeerHealth.bestRecoveryPolicy_lt probe.best)
  | suspect seen many blamed works =>
    exact hsync.fold blamed.unhealthy
  | failover seen many blamed patient failed best => exact hsync.switchTo seen nofun
  | inactive seen many blamed none unproven =>
    have hfold := hsync.fold blamed.unhealthy
    exact ⟨hfold.jitter_eq, hfold.lastSwitch_eq, hfold.since_le, hfold.count_eq, hfold.recovery_le,
      hfold.inbound_le, hfold.probing⟩
  | noViable seen many blamed =>
    exact hsync.fold blamed.unhealthy

theorem Invariant.watch {s : Timed × SwitchLog} (hs : Invariant jitter s)
    (op : ℕ × HealthCall profile) : Invariant jitter (Timed.watch note s op) := by
  obtain ⟨⟨h, now⟩, l⟩ := s
  obtain ⟨wait, op⟩ := op
  have hlater := hs.kept.later wait
  cases op with
  | observe stats routes =>
    exact ⟨hlater.observe ⟨h, now⟩ routes, note_counted hs.counted ⟨h, now⟩
      ⟨(h.observe profile stats routes (now + wait)).2, now + wait⟩ (.observe stats routes)
      (h.observe profile stats routes (now + wait)).1⟩
  | syncPolicies activePolicy routes =>
    exact ⟨hlater.syncPolicies profile activePolicy routes, hs.counted⟩

theorem run_invariant (activePolicy created jitter : ℕ) (ops : List (ℕ × HealthCall profile)) :
    Invariant jitter
      (ops.foldl (Timed.watch note) (Timed.start activePolicy created jitter, { since := created })) :=
  List.foldlRecOn ops _ ⟨kept_start activePolicy created jitter, nofun⟩ fun _ hs op _ => hs.watch op

/-- After any calls on the health of a peer, a sample that leads to a switch keeps the distance from
the switch before that its reason asks for. A probe is taken back only as the next switch, and only
if nothing was heard since. -/
theorem run_switches_damped (profile : Profile) (activePolicy created jitter : ℕ)
    (ops : List (ℕ × HealthCall profile)) (wait : ℕ) (stats : Stats) (routes : RouteKeyVec profile)
    (policy : ℕ) (reason : SwitchReason) :
    let s := ops.foldl (Timed.watch note)
      (Timed.start activePolicy created jitter, { since := created })
    (s.1.call wait (.observe stats routes)).1 = .switch policy reason →
      s.2.Damped jitter (s.1.now + wait) reason := by
  intro s hswitch
  have hinv := run_invariant activePolicy created jitter ops
  have hverdict := PeerHealth.observe_verdict profile s.1.health stats routes (s.1.now + wait)
  have hdecision : (s.1.health.observe profile stats routes (s.1.now + wait)).1 =
      .switch policy reason := hswitch
  have hsync := (hinv.kept.later wait).syncPolicies profile s.1.health.activePolicy routes
  rw [← Prod.mk.eta (p := s.1.health.observe profile stats routes (s.1.now + wait)), hdecision]
    at hverdict
  exact hsync.damped hinv.counted hverdict

end SwitchLog

end Tendrilix.Control

namespace Tendrilix.Sample

open Control

theorem run_switches_damped_twice :
    let s := (unanswered routeKeys [0, 30, 5, 130]).foldl (Timed.watch SwitchLog.note)
      (Timed.start 0 0 0, { since := 0 })
    s.2.reason = some .failover ∧ s.2.counted = 1 ∧
      s.2.Damped 0 (s.1.now + secs 5) .failover := by
  refine ⟨by decide +kernel, by decide +kernel, ?_⟩
  exact SwitchLog.run_switches_damped .alloc 0 0 0 (unanswered routeKeys [0, 30, 5, 130]) (secs 5)
    (counters 5 0) routeKeys 2 .failover (by decide +kernel)

end Tendrilix.Sample
