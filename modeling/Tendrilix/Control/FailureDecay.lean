import Tendrilix.Control.RouteScores

/-!
# Failures age by the clock

The decay of a route's score moves its own anchor. How often it is evaluated makes no difference to
the score, the anchor or the label.
-/

namespace Tendrilix.Control

namespace PolicyHealth

variable {p : PolicyHealth} {now anchor : ℕ}

def intervalsSince (now anchor : ℕ) : ℕ := (now - anchor) / policyFailureDecayInterval

theorem policyFailureDecayInterval_pos : 0 < policyFailureDecayInterval := by decide

theorem intervalsSince_of_le (h : policyFailureDecayInterval ≤ now - anchor) :
    intervalsSince now anchor =
      intervalsSince now (anchor + policyFailureDecayInterval) + 1 := by
  rw [intervalsSince, Nat.div_eq_sub_div policyFailureDecayInterval_pos h, Nat.sub_sub]
  rfl

theorem intervalsSince_mono {later : ℕ} (h : now ≤ later) :
    intervalsSince now anchor ≤ intervalsSince later anchor :=
  Nat.div_le_div_right (Nat.sub_le_sub_right h anchor)

theorem intervalsSince_add (n : ℕ) :
    intervalsSince now (anchor + n * policyFailureDecayInterval) = intervalsSince now anchor - n := by
  rw [intervalsSince, ← Nat.sub_sub, Nat.mul_comm, Nat.sub_mul_div]
  rfl

theorem decayLoop_eq (now suspicion anchor : ℕ) :
    decayLoop now suspicion anchor = (suspicion - intervalsSince now anchor,
      anchor + min suspicion (intervalsSince now anchor) * policyFailureDecayInterval) := by
  induction suspicion generalizing anchor with
  | zero =>
    rw [decayLoop, Nat.zero_sub, Nat.zero_min, Nat.zero_mul, Nat.add_zero]
  | succ suspicion ih =>
    rw [decayLoop]
    split
    · rename_i hdue
      rw [ih, intervalsSince_of_le hdue, Nat.add_sub_add_right, Nat.add_min_add_right, Nat.add_mul,
        Nat.one_mul, Nat.add_assoc anchor, Nat.add_comm policyFailureDecayInterval]
    · rename_i hearly
      have hzero : intervalsSince now anchor = 0 := Nat.div_eq_of_lt (Nat.lt_of_not_le hearly)
      rw [hzero, Nat.sub_zero, Nat.min_zero, Nat.zero_mul]
      rfl

theorem decay_of_anchor (hanchor : p.lastFailure = some anchor) (hpos : p.suspicion ≠ 0) (now : ℕ) :
    p.decay now =
      if p.suspicion ≤ intervalsSince now anchor then
        { p with suspicion := 0, lastFailure := none, state := .unknown }
      else
        { p with
          suspicion := p.suspicion - intervalsSince now anchor
          lastFailure := some (anchor + intervalsSince now anchor * policyFailureDecayInterval)
          state := stateOf (p.suspicion - intervalsSince now anchor) } := by
  rw [decay, hanchor]
  dsimp only
  rw [if_neg hpos, decayLoop_eq]
  dsimp only
  by_cases hshed : p.suspicion ≤ intervalsSince now anchor
  · rw [if_pos (Nat.sub_eq_zero_of_le hshed), if_pos hshed]
  · have hlt := Nat.lt_of_not_le hshed
    rw [if_neg (Nat.sub_ne_zero_of_lt hlt), if_neg hshed, min_eq_right hlt.le]

theorem decay_of_idle (h : p.lastFailure = none ∨ p.suspicion = 0) (now : ℕ) : p.decay now = p := by
  rw [decay]
  split
  · rfl
  · rename_i anchor hanchor
    have hzero : p.suspicion = 0 := h.resolve_left fun hnone => by
      cases hanchor.symm.trans hnone
    rw [if_pos hzero]

theorem decay_decay {later : ℕ} (h : now ≤ later) : (p.decay now).decay later = p.decay later := by
  by_cases hidle : p.lastFailure = none ∨ p.suspicion = 0
  · rw [decay_of_idle hidle]
  obtain ⟨hfailed, hpos⟩ := not_or.mp hidle
  obtain ⟨anchor, hanchor⟩ := Option.ne_none_iff_exists'.mp hfailed
  have hmono : intervalsSince now anchor ≤ intervalsSince later anchor := intervalsSince_mono h
  rw [decay_of_anchor hanchor hpos later, decay_of_anchor hanchor hpos now]
  by_cases hshed : p.suspicion ≤ intervalsSince now anchor
  · rw [if_pos hshed, if_pos (hshed.trans hmono), decay_of_idle (.inl rfl)]
  · have hlt := Nat.lt_of_not_le hshed
    have hgrid := @intervalsSince_add later anchor (intervalsSince now anchor)
    rw [if_neg hshed, decay_of_anchor rfl (Nat.sub_ne_zero_of_lt hlt), hgrid]
    dsimp only
    have hsum : intervalsSince now anchor + (intervalsSince later anchor - intervalsSince now anchor)
        = intervalsSince later anchor := Nat.add_sub_cancel' hmono
    have hleft : p.suspicion - intervalsSince now anchor -
        (intervalsSince later anchor - intervalsSince now anchor) =
          p.suspicion - intervalsSince later anchor := by
      rw [Nat.sub_sub, hsum]
    rw [hleft, Nat.add_assoc, ← Nat.add_mul, hsum]
    by_cases hall : p.suspicion ≤ intervalsSince later anchor
    · rw [if_pos hall, if_pos (Nat.sub_le_sub_right hall _)]
    · rw [if_neg hall, if_neg (by omega)]

theorem foldl_decay {times : List ℕ} {last : ℕ} (h : (times ++ [last]).Pairwise (· ≤ ·)) :
    (times ++ [last]).foldl decay p = p.decay last := by
  induction times generalizing p with
  | nil => rfl
  | cons time times ih =>
    obtain ⟨hfirst, hrest⟩ := List.pairwise_cons.mp h
    rw [List.cons_append, List.foldl_cons, ih hrest]
    exact decay_decay (hfirst last (by simp))

theorem decay_suspicion (hanchor : p.lastFailure = some anchor) (now : ℕ) :
    (p.decay now).suspicion = p.suspicion - (now - anchor) / policyFailureDecayInterval := by
  by_cases hzero : p.suspicion = 0
  · rw [decay_of_idle (.inr hzero), hzero, Nat.zero_sub]
  · rw [decay_of_anchor hanchor hzero]
    split
    · rename_i hshed
      exact (Nat.sub_eq_zero_of_le hshed).symm
    · rfl

inductive Reached : PolicyHealth → Prop
  | new : Reached {}
  | recordSuccess {p : PolicyHealth} (now : ℕ) (reached : Reached p) : Reached (p.recordSuccess now)
  | recordFailure {p : PolicyHealth} (now : ℕ) (reached : Reached p) : Reached (p.recordFailure now)
  | decay {p : PolicyHealth} (now : ℕ) (reached : Reached p) : Reached (p.decay now)

theorem reached_kept : Kept Reached := ⟨.new, .recordSuccess, .recordFailure, .decay⟩

theorem Kept.of_reached {P : PolicyHealth → Prop} (hP : Kept P) (h : p.Reached) : P p := by
  induction h with
  | new => exact hP.new
  | recordSuccess now _ ih => exact hP.recordSuccess now ih
  | recordFailure now _ ih => exact hP.recordFailure now ih
  | decay now _ ih => exact hP.decay now ih

/-- Decay depends on the time that has passed, not on how often it is evaluated. -/
theorem Reached.decay_independent (h : p.Reached) :
    (∀ times last, (times ++ [last]).Pairwise (· ≤ ·) →
      (times ++ [last]).foldl PolicyHealth.decay p = p.decay last) ∧
    (∀ anchor now, p.lastFailure = some anchor →
      (p.decay now).suspicion = p.suspicion - (now - anchor) / policyFailureDecayInterval) ∧
    (p.lastFailure = none → p.suspicion = 0 ∧ ∀ now, p.decay now = p) := by
  refine ⟨fun _ _ => foldl_decay, fun _ now hanchor => decay_suspicion hanchor now, fun hnone => ?_⟩
  refine ⟨?_, decay_of_idle (.inl hnone)⟩
  by_contra hpos
  have hdated := (coherent_kept.of_reached h).dated (Nat.pos_of_ne_zero hpos)
  rw [hnone] at hdated
  cases hdated

theorem decay_independent_failed :
    ((({} : PolicyHealth).recordFailure 0).recordFailure (secs 5)).Reached ∧
    [secs 605, secs 1505].foldl PolicyHealth.decay
        ((({} : PolicyHealth).recordFailure 0).recordFailure (secs 5)) =
      ((({} : PolicyHealth).recordFailure 0).recordFailure (secs 5)).decay (secs 1505) ∧
    (((({} : PolicyHealth).recordFailure 0).recordFailure (secs 5)).decay (secs 1505)).suspicion =
      2 := by
  have hreached : ((({} : PolicyHealth).recordFailure 0).recordFailure (secs 5)).Reached :=
    .recordFailure _ (.recordFailure _ .new)
  obtain ⟨hfold, hsuspicion, -⟩ := hreached.decay_independent
  refine ⟨hreached, hfold [secs 605] (secs 1505) (by decide), ?_⟩
  rw [hsuspicion (secs 5) (secs 1505) rfl]
  decide

end PolicyHealth

theorem Timed.run_reached {profile : Profile} (activePolicy created jitter : ℕ)
    (ops : List (ℕ × HealthCall profile)) :
    (ops.foldl (watch unlogged) (start activePolicy created jitter, ())).1.health.All
      PolicyHealth.Reached := by
  have hstart : (start activePolicy created jitter).health.All PolicyHealth.Reached :=
    List.forall_mem_nil _
  exact List.foldlRecOn ops _ (motive := fun s : Timed × Unit => s.1.health.All PolicyHealth.Reached) hstart
    fun s hs op _ => call_all PolicyHealth.reached_kept s.1 op.1 op.2 hs

end Tendrilix.Control
