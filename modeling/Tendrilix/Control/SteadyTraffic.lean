import Mathlib.Data.Set.Card
import Tendrilix.Control.SilenceClock

/-!
# A route that delivers is not blamed

The device only sees counters, at whatever times it samples them. Packets that arrive often enough
keep every sample from speaking against the active route.
-/

namespace Tendrilix.Control

open Device (Stats)

namespace PolicyHealth

theorem decay_suspicion_le (p : PolicyHealth) (now : ℕ) : (p.decay now).suspicion ≤ p.suspicion := by
  rw [decay]
  split
  · exact le_rfl
  · rename_i anchor hanchor
    split
    · exact le_rfl
    · have hle := decayLoop_le now p.suspicion anchor
      dsimp only
      split
      · exact Nat.zero_le _
      · exact hle

theorem noted_suspicion_le (p : PolicyHealth) {sample : Sample} (hsample : sample ≠ .unhealthy)
    (now : ℕ) : (p.noted sample now).suspicion ≤ p.suspicion := by
  cases sample with
  | healthy => exact Nat.sub_le _ _
  | unhealthy => exact absurd rfl hsample
  | idle => exact le_rfl

end PolicyHealth

namespace PeerHealth

variable {h h' : PeerHealth} {stats : Stats} {sample : Sample} {now policyCount : ℕ}

def Eases (h h' : PeerHealth) : Prop :=
  ∀ e' ∈ h'.policyHealth, ∃ e ∈ h.policyHealth, e.route = e'.route ∧
    e'.health.suspicion ≤ e.health.suspicion

theorem Eases.refl (h : PeerHealth) : h.Eases h := fun e he => ⟨e, he, rfl, le_rfl⟩

theorem fold_eases (h : PeerHealth) (stats : Stats) (sample : Sample) (hsample : sample ≠ .unhealthy)
    (now : ℕ) :
    h.Eases (h.fold stats sample now) := by
  intro e' he'
  obtain ⟨i, hi⟩ := List.mem_iff_getElem?.mp he'
  rw [fold_getElem, Option.map_eq_some_iff] at hi
  obtain ⟨e, he, rfl⟩ := hi
  have hdecay := e.health.decay_suspicion_le now
  refine ⟨e, List.mem_of_getElem? he, rfl, ?_⟩
  dsimp only
  split
  · exact ((e.health.decay now).noted_suspicion_le hsample now).trans hdecay
  · exact hdecay

theorem observeFirst_policyHealth : (h.observeFirst stats now).policyHealth = h.policyHealth := by
  rw [observeFirst]
  split
  · rfl
  · rfl

theorem observeFirst_lastRxPackets :
    (h.observeFirst stats now).lastRxPackets = stats.traffic.rxPackets := by
  rw [observeFirst]
  split
  · rfl
  · rfl

structure Heard (arrival : ℕ → ℕ) (created : ℕ) (h : PeerHealth) (now : ℕ) : Prop where
  created_le : created ≤ h.anchor
  anchor_le : h.anchor ≤ now
  counted : ∀ i < h.lastRxPackets, arrival i ≤ h.anchor

variable {arrival : ℕ → ℕ} {created later : ℕ}

theorem Heard.congr (hh : h.Heard arrival created now) (hanchor : h'.anchor = h.anchor)
    (hrx : h'.lastRxPackets = h.lastRxPackets) (hlater : now ≤ later) :
    h'.Heard arrival created later := by
  constructor
  · rw [hanchor]
    exact hh.created_le
  · rw [hanchor]
    exact hh.anchor_le.trans hlater
  · rw [hanchor, hrx]
    exact hh.counted

theorem Heard.restart (hh : h.Heard arrival created now) (hlater : now ≤ later)
    (hanchor : h'.anchor = later) (hcount : ∀ i < h'.lastRxPackets, arrival i ≤ later) :
    h'.Heard arrival created later := by
  constructor
  · rw [hanchor]
    exact hh.created_le.trans (hh.anchor_le.trans hlater)
  · rw [hanchor]
  · rw [hanchor]
    exact hcount

section Counted

variable (hcount : ∀ i, arrival i ≤ later ↔ i < stats.traffic.rxPackets) (hlater : now ≤ later)
  (hh : h.Heard arrival created now)
include hcount hlater hh

theorem Heard.lastRxPackets_le : h.lastRxPackets ≤ stats.traffic.rxPackets := by
  cases hlast : h.lastRxPackets with
  | zero => exact Nat.zero_le _
  | succ n =>
    have harrived := hh.counted n (hlast ▸ Nat.lt_succ_self n)
    exact (hcount n).mp (harrived.trans (hh.anchor_le.trans hlater))

theorem Heard.classify_ne (hfirst : arrival 0 < created + inboundSilenceTimeout)
    (hnext : ∀ i, arrival (i + 1) < arrival i + inboundSilenceTimeout) :
    h.classify stats later ≠ .unhealthy := by
  rw [classify]
  split
  · decide
  rename_i hsame
  split
  · rename_i hsilent
    have hmissing : later < arrival h.lastRxPackets := by
      rw [← Nat.not_le, hcount]
      exact hsame
    have hdue : arrival h.lastRxPackets < h.anchor + inboundSilenceTimeout := by
      cases hlast : h.lastRxPackets with
      | zero => exact hfirst.trans_le (Nat.add_le_add_right hh.created_le _)
      | succ n =>
        have harrived := hh.counted n (hlast ▸ Nat.lt_succ_self n)
        exact (hnext n).trans_le (Nat.add_le_add_right harrived _)
    have hsilence := hsilent.2
    rw [inboundSilence_eq] at hsilence
    have hstarted := hh.anchor_le
    omega
  · decide

theorem Heard.fold (sample : Sample) (hfold : h'.anchor = (h.fold stats sample later).anchor)
    (hrx : h'.lastRxPackets = stats.traffic.rxPackets) : h'.Heard arrival created later := by
  by_cases hgrown : h.lastRxPackets < stats.traffic.rxPackets
  · refine hh.restart hlater ?_ fun i hi => (hcount i).mpr (hrx ▸ hi)
    rw [hfold, anchor, fold_lastInboundAt, if_pos hgrown]
    rfl
  · have hsame := hh.lastRxPackets_le hcount hlater
    refine hh.congr ?_ (by omega) hlater
    rw [hfold, anchor, fold_lastInboundAt, if_neg hgrown, fold_lastSwitch]
    rfl

theorem Heard.observeFirst : (h.observeFirst stats later).Heard arrival created later := by
  have hrx : (h.observeFirst stats later).lastRxPackets = stats.traffic.rxPackets :=
    h.observeFirst_lastRxPackets
  have hanchor : (h.observeFirst stats later).anchor =
      if 0 < stats.traffic.rxPackets then later else h.anchor := by
    rw [PeerHealth.observeFirst]
    split
    · split
      · rfl
      · rfl
    · split
      · rfl
      · rfl
  by_cases hreceived : 0 < stats.traffic.rxPackets
  · rw [if_pos hreceived] at hanchor
    exact hh.restart hlater hanchor fun i hi => (hcount i).mpr (hrx ▸ hi)
  · have hsame := hh.lastRxPackets_le hcount hlater
    rw [if_neg hreceived] at hanchor
    exact hh.congr hanchor (by omega) hlater

theorem Heard.verdict (hfirst : arrival 0 < created + inboundSilenceTimeout)
    (hnext : ∀ i, arrival (i + 1) < arrival i + inboundSilenceTimeout)
    {answer : HealthDecision × PeerHealth} (hverdict : Verdict h stats policyCount later answer) :
    answer.2.Heard arrival created later ∧
      (answer.1 = .stay ∨ ∃ policy, answer.1 = .switch policy .recoveryProbe) ∧
      h.Eases answer.2 := by
  have hblameless := hh.classify_ne hcount hlater hfirst hnext
  cases hverdict with
  | single few => exact ⟨hh.congr rfl rfl hlater, .inl rfl, .refl h⟩
  | first unseen =>
    refine ⟨hh.observeFirst hcount hlater, .inl rfl, ?_⟩
    rw [Eases, observeFirst_policyHealth]
    exact Eases.refl h
  | idle seen many judged =>
    exact ⟨hh.fold hcount hlater .idle rfl fold_lastRxPackets, .inl rfl, h.fold_eases stats .idle nofun later⟩
  | healthy seen many judged patient =>
    exact ⟨hh.fold hcount hlater .healthy rfl fold_lastRxPackets, .inl rfl,
      h.fold_eases stats .healthy nofun later⟩
  | @healthyProbe policy seen many judged probe =>
    refine ⟨hh.restart hlater rfl fun i hi => (hcount i).mpr ?_, .inr ⟨policy, rfl⟩,
      h.fold_eases stats .healthy nofun later⟩
    exact hi
  | recoveryFailed seen many judged => exact absurd judged hblameless
  | hot seen many judged => exact absurd judged hblameless
  | blamedProbe seen many blamed => exact absurd blamed.unhealthy hblameless
  | suspect seen many blamed => exact absurd blamed.unhealthy hblameless
  | failover seen many blamed => exact absurd blamed.unhealthy hblameless
  | inactive seen many blamed => exact absurd blamed.unhealthy hblameless
  | noViable seen many blamed => exact absurd blamed.unhealthy hblameless

end Counted

end PeerHealth

namespace Timed

variable {profile : Profile} {arrival : ℕ → ℕ}

def unlogged (_ : Unit) (_ : Timed) (_ : HealthCall profile) (_ : HealthDecision) (_ : Timed) :
    Unit := ()

/-- A sample shows how many packets have arrived by the time it is taken. -/
def CountsArrivals (arrival : ℕ → ℕ) (s : Timed × Unit) (op : ℕ × HealthCall profile) : Prop :=
  ∀ stats routes, op.2 = .observe stats routes →
    {i | arrival i ≤ s.1.now + op.1}.encard = stats.traffic.rxPackets

/-- The call blames no route: it stays or probes for recovery, and suspicions do not grow. -/
def Unblamed (s : Timed × Unit) (op : ℕ × HealthCall profile) : Prop :=
  ((s.1.call op.1 op.2).1 = .stay ∨
    ∃ policy, (s.1.call op.1 op.2).1 = .switch policy .recoveryProbe) ∧
  ∀ e ∈ (s.1.call op.1 op.2).2.health.policyHealth,
    e.health.suspicion ≤ (s.1.health.entryFor e.route).health.suspicion

theorem arrived_iff (hmono : Monotone arrival) {now n : ℕ}
    (hcard : {i | arrival i ≤ now}.encard = n) (i : ℕ) : arrival i ≤ now ↔ i < n := by
  constructor
  · intro hi
    have hsub : Set.Iic i ⊆ {i | arrival i ≤ now} := fun j hj => (hmono hj).trans hi
    have hle := Set.encard_le_encard hsub
    rw [hcard, ← Finset.coe_Iic, Set.encard_coe_eq_coe_finsetCard, Nat.card_Iic] at hle
    exact Nat.cast_le.mp hle
  · intro hi
    by_contra hlate
    have hsub : {i | arrival i ≤ now} ⊆ Set.Iio i := by
      intro j hj
      by_contra hij
      exact hlate ((hmono (Nat.not_lt.mp hij)).trans hj)
    have hle := Set.encard_le_encard hsub
    rw [hcard, ← Finset.coe_Iio, Set.encard_coe_eq_coe_finsetCard, Nat.card_Iio] at hle
    have hn : n ≤ i := Nat.cast_le.mp hle
    omega

def Hears (arrival : ℕ → ℕ) (created : ℕ) (s : Timed × Unit) : Prop :=
  s.1.health.Heard arrival created s.1.now

theorem Hears.watch (hmono : Monotone arrival) {created : ℕ}
    (hfirst : arrival 0 < created + inboundSilenceTimeout)
    (hnext : ∀ i, arrival (i + 1) < arrival i + inboundSilenceTimeout) {s : Timed × Unit}
    (hs : Hears arrival created s) (op : ℕ × HealthCall profile) (hcounts : CountsArrivals arrival s op) :
    Hears arrival created (watch unlogged s op) ∧ Unblamed s op := by
  obtain ⟨wait, op⟩ := op
  have hlater : s.1.now ≤ s.1.now + wait := Nat.le_add_right _ _
  cases op with
  | syncPolicies activePolicy routes =>
    refine ⟨PeerHealth.Heard.congr hs rfl rfl hlater, .inl rfl, fun e he => ?_⟩
    rw [← PeerHealth.mem_syncPolicies he]
  | observe stats routes =>
    have hcount := arrived_iff hmono (hcounts stats routes rfl)
    have haligned : (s.1.health.syncPolicies profile s.1.health.activePolicy routes).Heard arrival
        created s.1.now := PeerHealth.Heard.congr hs rfl rfl le_rfl
    obtain ⟨hheard, hdecision, heases⟩ := haligned.verdict hcount hlater hfirst hnext
      (PeerHealth.observe_verdict profile s.1.health stats routes (s.1.now + wait))
    refine ⟨hheard, hdecision, fun e' he' => ?_⟩
    obtain ⟨e, he, hroute, hle⟩ := heases e' he'
    rw [← hroute, ← PeerHealth.mem_syncPolicies he]
    exact hle

/-- Packets that arrive in time keep every route free of blame, however the counters are sampled. -/
theorem run_steady_unblamed (profile : Profile) (activePolicy created jitter : ℕ) (arrival : ℕ → ℕ)
    (hmono : Monotone arrival) (hfirst : arrival 0 < created + inboundSilenceTimeout)
    (hnext : ∀ i, arrival (i + 1) < arrival i + inboundSilenceTimeout)
    (ops : List (ℕ × HealthCall profile))
    (hcounts : Throughout unlogged (CountsArrivals arrival)
      (start activePolicy created jitter, ()) ops) :
    Throughout unlogged Unblamed (start activePolicy created jitter, ()) ops := by
  have hstart : Hears arrival created (start activePolicy created jitter, ()) :=
    ⟨le_rfl, le_rfl, nofun⟩
  have hrun := Throughout.invariant (P := CountsArrivals arrival) (Q := Unblamed)
    (I := Hears arrival created)
    (fun s op hs hcounts => Hears.watch hmono hfirst hnext hs op hcounts) hstart hcounts
  exact hrun.2

end Timed

end Tendrilix.Control

namespace Tendrilix.Sample

open Control

def everyTen (i : ℕ) : ℕ := secs (10 * i)

def steadySamples : List (ℕ × HealthCall .alloc) :=
  [(secs 5, .observe (counters 3 1) routeKeys), (secs 195, .observe (counters 9 21) routeKeys),
    (secs 8, .observe (counters 10 21) routeKeys)]

theorem encard_everyTen (t : ℕ) :
    {i | everyTen i ≤ t}.encard = (t / secs 10 + 1 : ℕ) := by
  have hset : {i | everyTen i ≤ t} = Finset.range (t / secs 10 + 1) := by
    ext i
    simp only [everyTen, secs, Set.mem_ofPred_eq, Finset.coe_range, Set.mem_Iio]
    omega
  rw [hset, Set.encard_coe_eq_coe_finsetCard, Finset.card_range]

theorem run_steady_unblamed_everyTen :
    Timed.Throughout Timed.unlogged Timed.Unblamed (Timed.start 2 0 0, ()) steadySamples := by
  refine Timed.run_steady_unblamed .alloc 2 0 0 everyTen ?_ ?_ ?_ steadySamples ?_
  · intro i j hij
    simp only [everyTen, secs]
    omega
  · decide
  · intro i
    simp only [everyTen, secs, inboundSilenceTimeout]
    omega
  · refine ⟨?_, ?_, ?_, trivial⟩
    all_goals
      rintro stats routes heq
      cases heq
      rw [encard_everyTen]
      rfl

end Tendrilix.Sample
