import Tendrilix.Control.HealthVerdict

/-!
# When a recovery probe is due

Every sample that shows inbound traffic puts the next recovery probe off. A peer that is never quiet
for the whole interval stays on its fallback.
-/

namespace Tendrilix.Control

open Device (Stats)

namespace PolicyHealth

variable {p : PolicyHealth}

theorem decay_isFailed (h : p.isFailed = false) (now : ℕ) : (p.decay now).isFailed = false := by
  simp only [isFailed, Bool.or_eq_false_iff, decide_eq_false_iff_not, Nat.not_le] at h
  rw [decay]
  split
  · simpa [isFailed] using h
  · rename_i anchor hanchor
    split
    · simpa [isFailed] using h
    · have hle := decayLoop_le now p.suspicion anchor
      dsimp only
      split
      · rename_i hzero
        simp [isFailed, policyFailureScore]
      · have hlt : (decayLoop now p.suspicion anchor).1 < policyFailureScore := hle.trans_lt h.1
        simp [isFailed, stateOf, hlt]

end PolicyHealth

namespace PeerHealth

variable {h : PeerHealth} {stats : Stats} {sample : Sample} {now policy : ℕ}

theorem aged_of_works {i : ℕ} (hworks : h.policyFailed i = false) : h.aged i now = true := by
  rw [policyFailed] at hworks
  rw [aged]
  cases hentry : h.policyHealth[i]? with
  | none => rfl
  | some entry =>
    rw [hentry] at hworks
    rw [Option.any_some, PolicyHealth.decay_isFailed hworks now]
    rfl

theorem exists_probeTarget {i : ℕ} (hi : i < h.activePolicy) (haged : h.aged i now = true)
    (sample : Sample) : ∃ policy, h.probeTarget sample now = some policy := by
  rw [← Option.isSome_iff_exists, probeTarget, Option.isSome_iff_ne_none, ne_eq, List.argmin_eq_none]
  apply List.ne_nil_of_mem (a := i)
  simp [hi, haged]

end PeerHealth

structure ActivityLog where
  /-- The last switch, or the creation. -/
  since : ℕ
  /-- The last sample that showed inbound growth. The first one counts if it showed any traffic. -/
  active : ℕ
  last : Option Stats := none

namespace ActivityLog

variable {profile : Profile} {routes : RouteKeyVec profile}

def showsActivity (l : ActivityLog) (stats : Stats) : Bool :=
  match l.last with
  | none => PeerHealth.hasActivity stats
  | some last => last.traffic.rxPackets < stats.traffic.rxPackets

def note (l : ActivityLog) (_ : Timed) (op : HealthCall profile) (d : HealthDecision) (t : Timed) :
    ActivityLog :=
  match op with
  | .observe stats _ =>
    { since :=
        match d with
        | .switch _ _ => t.now
        | _ => l.since
      active := if l.showsActivity stats then t.now else l.active
      last := some stats }
  | .syncPolicies _ _ => l

structure Kept (l : ActivityLog) (jitter : ℕ) (h : PeerHealth) : Prop where
  jitter_eq : h.jitter = jitter
  seen_eq : h.hasObservedStats = l.last.isSome
  last_eq : ∀ last, l.last = some last → h.lastTxPackets = last.traffic.txPackets ∧
    h.lastRxPackets = last.traffic.rxPackets
  next_le : h.nextRecoveryAttemptAt ≤ max l.since l.active + recoveryProbeInterval + jitter

variable {l : ActivityLog} {jitter now policyCount : ℕ} {h : PeerHealth} {stats : Stats}

theorem kept_start (activePolicy created jitter : ℕ) :
    Kept ⟨created, created, none⟩ jitter (.newWithJitter activePolicy created jitter) where
  jitter_eq := rfl
  seen_eq := rfl
  last_eq := nofun
  next_le := by
    rw [max_self]
    exact le_rfl

theorem Kept.fold (hk : l.Kept jitter h) {sample : Sample} {h' : PeerHealth}
    (seen : h.hasObservedStats = true) (judged : h.classify stats now = sample)
    (hjitter : h'.jitter = h.jitter) (hseen : h'.hasObservedStats = h.hasObservedStats)
    (htx : h'.lastTxPackets = stats.traffic.txPackets)
    (hrx : h'.lastRxPackets = stats.traffic.rxPackets)
    (hnext : h'.nextRecoveryAttemptAt = (h.fold stats sample now).nextRecoveryAttemptAt) :
    Kept ⟨l.since, if l.showsActivity stats then now else l.active, some stats⟩ jitter h' where
  jitter_eq := hjitter.trans hk.jitter_eq
  seen_eq := hseen.trans seen
  last_eq last hlast := by
    cases hlast
    exact ⟨htx, hrx⟩
  next_le := by
    have hold := hk.next_le
    obtain ⟨last, hlast⟩ := Option.isSome_iff_exists.mp (hk.seen_eq.symm.trans seen)
    have hshows : l.showsActivity stats = decide (h.lastRxPackets < stats.traffic.rxPackets) := by
      rw [showsActivity, hlast, (hk.last_eq last hlast).2]
    rw [hnext, PeerHealth.fold_nextRecoveryAttemptAt, hshows]
    rw [PeerHealth.classify] at judged
    dsimp only
    by_cases hgrown : h.lastRxPackets < stats.traffic.rxPackets
    · rw [if_pos hgrown] at judged
      rw [if_pos judged.symm, decide_eq_true hgrown, hk.jitter_eq, if_pos rfl]
      omega
    · rw [if_neg hgrown] at judged
      have hquiet : sample ≠ .healthy := by
        intro heq
        rw [heq] at judged
        split at judged <;> cases judged
      rw [if_neg hquiet, decide_eq_false hgrown, if_neg Bool.false_ne_true]
      exact hold

theorem Kept.observeFirst (hk : l.Kept jitter h) (unseen : h.hasObservedStats = false) :
    Kept ⟨l.since, if l.showsActivity stats then now else l.active, some stats⟩ jitter
      (h.observeFirst stats now) := by
  have hlast : l.last = none := by
    rw [← Option.not_isSome_iff_eq_none, ← hk.seen_eq, unseen]
    exact Bool.false_ne_true
  have hshows : l.showsActivity stats = PeerHealth.hasActivity stats := by
    rw [showsActivity, hlast]
  have hold := hk.next_le
  rw [hshows, PeerHealth.observeFirst]
  split
  · refine ⟨hk.jitter_eq, rfl, fun last hlast => ?_, ?_⟩
    · cases hlast
      exact ⟨rfl, rfl⟩
    · change now + recoveryProbeInterval + h.jitter ≤ max l.since now + _ + _
      rw [hk.jitter_eq]
      omega
  · refine ⟨hk.jitter_eq, rfl, fun last hlast => ?_, hold⟩
    cases hlast
    exact ⟨rfl, rfl⟩

theorem Kept.switchTo (hk : l.Kept jitter h) (seen : h.hasObservedStats = true) {sample : Sample}
    {policy : ℕ} {probe : Bool} (active : ℕ) :
    Kept ⟨now, active, some stats⟩ jitter
      ((h.fold stats sample now).takeFallback.switchTo policy now probe) where
  jitter_eq := by simpa [PeerHealth.takeFallback] using hk.jitter_eq
  seen_eq := PeerHealth.fold_hasObservedStats.trans seen
  last_eq last hlast := by
    cases hlast
    exact ⟨PeerHealth.fold_lastTxPackets, PeerHealth.fold_lastRxPackets⟩
  next_le := by
    change now + recoveryProbeInterval + (h.fold stats sample now).jitter ≤ max now active + _ + _
    rw [PeerHealth.fold_jitter, hk.jitter_eq]
    omega

theorem Kept.observe (hk : l.Kept jitter h) (t : Timed) (hmany : 1 < routes.1.length) :
    (l.note t (.observe stats routes) (h.observe profile stats routes now).1
      ⟨(h.observe profile stats routes now).2, now⟩).Kept jitter
      (h.observe profile stats routes now).2 := by
  have hverdict := PeerHealth.observe_verdict profile h stats routes now
  have hsync : l.Kept jitter (h.syncPolicies profile h.activePolicy routes) :=
    ⟨hk.jitter_eq, hk.seen_eq, hk.last_eq, hk.next_le⟩
  revert hverdict hsync
  generalize h.observe profile stats routes now = answer
  generalize h.syncPolicies profile h.activePolicy routes = h₁
  intro hverdict hsync
  cases hverdict with
  | single few => omega
  | first unseen => exact hsync.observeFirst unseen
  | idle seen many judged => exact hsync.fold seen judged (by simp) (by simp) (by simp) (by simp) rfl
  | healthy seen many judged patient =>
    exact hsync.fold seen judged PeerHealth.fold_jitter PeerHealth.fold_hasObservedStats
      PeerHealth.fold_lastTxPackets PeerHealth.fold_lastRxPackets rfl
  | hot seen many judged settled early =>
    exact hsync.fold seen judged PeerHealth.fold_jitter PeerHealth.fold_hasObservedStats
      PeerHealth.fold_lastTxPackets PeerHealth.fold_lastRxPackets rfl
  | suspect seen many blamed works =>
    exact hsync.fold seen blamed.unhealthy PeerHealth.fold_jitter PeerHealth.fold_hasObservedStats
      PeerHealth.fold_lastTxPackets PeerHealth.fold_lastRxPackets rfl
  | inactive seen many blamed none unproven =>
    exact hsync.fold seen blamed.unhealthy PeerHealth.fold_jitter PeerHealth.fold_hasObservedStats
      PeerHealth.fold_lastTxPackets PeerHealth.fold_lastRxPackets rfl
  | noViable seen many blamed =>
    exact hsync.fold seen blamed.unhealthy PeerHealth.fold_jitter PeerHealth.fold_hasObservedStats
      PeerHealth.fold_lastTxPackets PeerHealth.fold_lastRxPackets rfl
  | healthyProbe seen | recoveryFailed seen | blamedProbe seen | failover seen =>
    exact hsync.switchTo seen _

theorem run_kept (activePolicy created jitter : ℕ) (hmany : 1 < routes.1.length)
    (samples : List (ℕ × Stats)) :
    let s := (Timed.observations routes samples).foldl (Timed.watch note)
      (Timed.start activePolicy created jitter, ⟨created, created, none⟩)
    s.2.Kept jitter s.1.health := by
  refine List.foldlRecOn (motive := fun s : Timed × ActivityLog => s.2.Kept jitter s.1.health) _ _
    (kept_start activePolicy created jitter) fun s hs op hop => ?_
  obtain ⟨⟨wait, stats⟩, -, rfl⟩ := List.mem_map.mp hop
  exact hs.observe s.1 hmany

theorem jitterFrom_le (draw : ℕ) : PeerHealth.jitterFrom draw ≤ secs maxHealthJitter := by
  have hlt : draw % (maxHealthJitter + 1) < maxHealthJitter + 1 := Nat.mod_lt _ (by decide)
  rw [PeerHealth.jitterFrom, secs, secs]
  omega

/-- A busy peer on a fallback tries a more preferred route that has not failed, once neither a switch
nor an earlier sign of activity is younger than the probe interval. -/
theorem run_probes_recovery (profile : Profile) (activePolicy created draw : ℕ)
    (routes : RouteKeyVec profile) (samples : List (ℕ × Stats)) (wait : ℕ) (last stats : Stats) :
    let s := (Timed.observations routes samples).foldl (Timed.watch note)
      (Timed.start activePolicy created (PeerHealth.jitterFrom draw), ⟨created, created, none⟩)
    let h := s.1.health.syncPolicies profile s.1.health.activePolicy routes
    0 < h.activePolicy → (∃ i < h.activePolicy, h.policyFailed i = false) →
    s.2.last = some last → last.traffic.txPackets < stats.traffic.txPackets →
    last.traffic.rxPackets < stats.traffic.rxPackets →
    s.2.since + recoveryProbeInterval + secs maxHealthJitter ≤ s.1.now + wait →
    s.2.active + recoveryProbeInterval + secs maxHealthJitter ≤ s.1.now + wait →
      ∃ policy, (s.1.call wait (.observe stats routes)).1 = .switch policy .recoveryProbe := by
  intro s h hactive hworks hlast htx hrx hsince hquiet
  have hmany : 1 < routes.1.length := by
    have hle : h.activePolicy ≤ routes.1.length - 1 := min_le_right _ _
    omega
  have hkept : s.2.Kept (PeerHealth.jitterFrom draw) s.1.health :=
    run_kept activePolicy created _ hmany samples
  have hseen : h.hasObservedStats = true := by
    change s.1.health.hasObservedStats = true
    rw [hkept.seen_eq, hlast]
    rfl
  obtain ⟨hlastTx, hlastRx⟩ := hkept.last_eq last hlast
  have hgrown : h.lastRxPackets < stats.traffic.rxPackets := hlastRx.trans_lt hrx
  have hjudged : h.classify stats (s.1.now + wait) = .healthy := by
    rw [PeerHealth.classify, if_pos hgrown]
  have hprobe : ∃ policy, h.ProbeDue stats .healthy (s.1.now + wait) policy := by
    obtain ⟨i, hi, hfailed⟩ := hworks
    obtain ⟨policy, htarget⟩ := PeerHealth.exists_probeTarget hi (PeerHealth.aged_of_works hfailed)
      .healthy
    refine ⟨policy, hlastTx.trans_lt htx, ?_, htarget⟩
    have hnext := hkept.next_le
    have hjitter := jitterFrom_le draw
    change s.1.health.nextRecoveryAttemptAt ≤ s.1.now + wait
    omega
  have hverdict : PeerHealth.Verdict h stats routes.1.length (s.1.now + wait)
      (s.1.health.observe profile stats routes (s.1.now + wait)) :=
    PeerHealth.observe_verdict profile s.1.health stats routes (s.1.now + wait)
  obtain ⟨policy, hprobe⟩ := hprobe
  change ∃ policy, (s.1.health.observe profile stats routes (s.1.now + wait)).1 = _
  revert hverdict
  generalize s.1.health.observe profile stats routes (s.1.now + wait) = answer
  intro hverdict
  cases hverdict with
  | single few => omega
  | first unseen => cases unseen.symm.trans hseen
  | idle seen many judged => cases judged.symm.trans hjudged
  | healthy seen many judged patient => exact absurd hprobe (patient policy)
  | healthyProbe seen many judged probe => exact ⟨_, rfl⟩
  | recoveryFailed seen many judged | hot seen many judged => cases judged.symm.trans hjudged
  | blamedProbe seen many blamed | suspect seen many blamed | failover seen many blamed
    | inactive seen many blamed | noViable seen many blamed =>
    cases blamed.unhealthy.symm.trans hjudged

end ActivityLog

end Tendrilix.Control

namespace Tendrilix.Sample

open Control

def busy : List (ℕ × Device.Stats) :=
  [(0, counters 1 1), (secs 60, counters 2 2), (secs 60, counters 3 3)]

theorem busy_peer_not_probed :
    let s := (Timed.observations routeKeys busy).foldl (Timed.watch ActivityLog.note)
      (Timed.start 1 0 (PeerHealth.jitterFrom 0), ⟨0, 0, none⟩)
    s.1.health.activePolicy = 1 ∧ s.1.health.policyFailed 0 = false ∧
      s.1.health.recoveryFallback = none ∧ s.2.last = some (counters 3 3) ∧
      s.2.since + recoveryProbeInterval + secs maxHealthJitter ≤ s.1.now + secs 60 ∧
      (s.1.call (secs 60) (.observe (counters 4 4) routeKeys)).1 = .stay := by
  decide +kernel

theorem run_probes_recovery_quiet :
    ∃ policy, (((Timed.observations routeKeys busy).foldl (Timed.watch ActivityLog.note)
      (Timed.start 1 0 (PeerHealth.jitterFrom 0), ⟨0, 0, none⟩)).1.call (secs 135)
        (.observe (counters 4 4) routeKeys)).1 = .switch policy .recoveryProbe :=
  ActivityLog.run_probes_recovery .alloc 1 0 0 routeKeys busy (secs 135) (counters 3 3)
    (counters 4 4) (by decide +kernel) ⟨0, by decide +kernel, by decide +kernel⟩ (by decide +kernel)
    (by decide) (by decide) (by decide +kernel) (by decide +kernel)

end Tendrilix.Sample
