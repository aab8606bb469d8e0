import Tendrilix.Ensures

/-!
# Runs of a state machine

A machine is a step function that answers a call and moves to a new state, or fails. The rules
below lift a fact about one step to every run.
-/

namespace Tendrilix.Machine

variable {σ ι ω ε : Type}

def run (step : σ → ι → Except ε (ω × σ)) : σ → List ι → Except ε (List ω × σ)
  | s, [] => .ok ([], s)
  | s, i :: is => do
    let (o, s') ← step s i
    let (os, s'') ← run step s' is
    return (o :: os, s'')

variable {step : σ → ι → Except ε (ω × σ)}

theorem run_cons_ok {s t : σ} {i : ι} {is : List ι} {os : List ω} :
    run step s (i :: is) = .ok (os, t) ↔
      ∃ o s' os', step s i = .ok (o, s') ∧ run step s' is = .ok (os', t) ∧ os = o :: os' := by
  constructor
  · intro h
    obtain ⟨⟨o, s'⟩, hstep, h⟩ := bind_ok_iff.mp h
    obtain ⟨⟨os', s''⟩, hrun, h⟩ := bind_ok_iff.mp h
    cases h
    exact ⟨o, s', os', hstep, hrun, rfl⟩
  · rintro ⟨o, s', os', hstep, hrun, rfl⟩
    simp only [run, hstep, hrun, ok_bind, pure_eq_ok]

theorem run_append_ok {s t : σ} {is js : List ι} {os : List ω} :
    run step s (is ++ js) = .ok (os, t) ↔
      ∃ os₁ s' os₂, run step s is = .ok (os₁, s') ∧ run step s' js = .ok (os₂, t) ∧
        os = os₁ ++ os₂ := by
  induction is generalizing s os with
  | nil => simp [run]
  | cons i is ih =>
    constructor
    · intro h
      obtain ⟨o, s', os', hi, hrest, rfl⟩ := run_cons_ok.mp h
      obtain ⟨os₁, s'', os₂, his, hjs, rfl⟩ := ih.mp hrest
      exact ⟨o :: os₁, s'', os₂, run_cons_ok.mpr ⟨o, s', os₁, hi, his, rfl⟩, hjs, rfl⟩
    · intro ⟨os₁, s'', os₂, his, hjs, hos⟩
      obtain ⟨o, s', os', hi, hrest, rfl⟩ := run_cons_ok.mp his
      exact run_cons_ok.mpr ⟨o, s', os' ++ os₂, hi, ih.mpr ⟨os', s'', os₂, hrest, hjs, rfl⟩, hos⟩

theorem run_invariant {I : σ → Prop} {s t : σ} {is : List ι} {os : List ω}
    (hstep : ∀ s i o s', i ∈ is → I s → step s i = .ok (o, s') → I s')
    (hrun : run step s is = .ok (os, t)) (hs : I s) : I t := by
  induction is generalizing s os with
  | nil =>
    cases hrun
    exact hs
  | cons i is ih =>
    obtain ⟨o, s', os', hi, hrest, -⟩ := run_cons_ok.mp hrun
    apply ih (fun s j o s' hj => hstep s j o s' (by simp [hj])) hrest
    exact hstep s i o s' (by simp) hs hi

/-- Every step of a run is taken in a state where `C` allows it. -/
def Along (step : σ → ι → Except ε (ω × σ)) (C : σ → ι → Prop) : σ → List ι → Prop
  | _, [] => True
  | s, i :: is =>
    C s i ∧
      match step s i with
      | .ok (_, s') => Along step C s' is
      | .error _ => True

theorem along_of_forall {C : σ → ι → Prop} {s : σ} {is : List ι} (h : ∀ s, ∀ i ∈ is, C s i) :
    Along step C s is := by
  induction is generalizing s with
  | nil => trivial
  | cons i is ih =>
    rw [Along]
    refine ⟨h s i List.mem_cons_self, ?_⟩
    split
    · exact ih fun s j hj => h s j (List.mem_cons_of_mem i hj)
    · trivial

theorem Along.append {C : σ → ι → Prop} {s : σ} {is js : List ι} (h : Along step C s is)
    (hrest : ∀ os t, run step s is = .ok (os, t) → Along step C t js) :
    Along step C s (is ++ js) := by
  induction is generalizing s with
  | nil => exact hrest [] s rfl
  | cons i is ih =>
    refine ⟨h.1, ?_⟩
    have hlater := h.2
    cases hstep : step s i with
    | error e => trivial
    | ok p =>
      obtain ⟨o, s'⟩ := p
      rw [hstep] at hlater
      refine ih hlater fun os t hrun => hrest (o :: os) t ?_
      exact run_cons_ok.mpr ⟨o, s', os, hstep, hrun, rfl⟩

instance Along.decidable (C : σ → ι → Prop) [∀ s i, Decidable (C s i)] :
    ∀ s is, Decidable (Along step C s is)
  | _, [] => isTrue trivial
  | s, i :: is =>
    match h : step s i with
    | .ok (_, s') =>
      haveI := Along.decidable C s' is
      decidable_of_iff (C s i ∧ Along step C s' is) (by rw [Along, h])
    | .error _ => decidable_of_iff (C s i) (by rw [Along, h]; simp)

/-- A fact about the past outputs and the state, kept by every step. -/
theorem run_history_along {I : List ω → σ → Prop} {C : σ → ι → Prop} {s t : σ} {is : List ι}
    {os : List ω} (past : List ω)
    (hstep : ∀ past s i o s', C s i → I past s → step s i = .ok (o, s') → I (past ++ [o]) s')
    (halong : Along step C s is) (hrun : run step s is = .ok (os, t)) (hs : I past s) :
    I (past ++ os) t := by
  induction is generalizing s past os with
  | nil =>
    cases hrun
    rwa [List.append_nil]
  | cons i is ih =>
    obtain ⟨o, s', os', hi, hrest, rfl⟩ := run_cons_ok.mp hrun
    rw [Along, hi] at halong
    rw [List.append_cons]
    exact ih _ halong.2 hrest (hstep past s i o s' halong.1 hs hi)

theorem run_invariant_along {I : σ → Prop} {C : σ → ι → Prop} {s t : σ} {is : List ι} {os : List ω}
    (hstep : ∀ s i o s', C s i → I s → step s i = .ok (o, s') → I s')
    (halong : Along step C s is) (hrun : run step s is = .ok (os, t)) (hs : I s) : I t :=
  run_history_along (I := fun _ => I) [] (fun _ => hstep) halong hrun hs

theorem run_avoids_along {I : σ → Prop} {C : σ → ι → Prop} {e : ε} {s : σ} {is : List ι}
    (hstep : ∀ s i, C s i → I s → Avoids e (step s i))
    (hinv : ∀ s i o s', C s i → I s → step s i = .ok (o, s') → I s')
    (halong : Along step C s is) (hs : I s) : Avoids e (run step s is) := by
  induction is generalizing s with
  | nil => exact .ok _
  | cons i is ih =>
    rw [Along] at halong
    refine .bind (hstep s i halong.1 hs) fun (o, s') hi => ?_
    rw [hi] at halong
    exact .bind (ih halong.2 (hinv s i o s' halong.1 hs hi)) fun _ _ => .ok _

theorem run_avoids {I : σ → Prop} {e : ε} {s : σ} {is : List ι}
    (hstep : ∀ s i, I s → Avoids e (step s i))
    (hinv : ∀ s i o s', I s → step s i = .ok (o, s') → I s') (hs : I s) :
    Avoids e (run step s is) :=
  run_avoids_along (C := fun _ _ => True) (fun s i _ => hstep s i) (fun s i o s' _ => hinv s i o s')
    (along_of_forall fun _ _ _ => trivial) hs

def cost (step : σ → ι → Except ε (ω × σ)) (c : σ → ι → ℕ) : σ → List ι → ℕ
  | _, [] => 0
  | s, i :: is =>
    c s i +
      match step s i with
      | .ok (_, s') => cost step c s' is
      | .error _ => 0

theorem run_cost_invariant {c : σ → ι → ℕ} {I : ℕ → ℕ → σ → Prop} {s t : σ} {is : List ι}
    {os : List ω} {steps spent : ℕ}
    (hstep : ∀ steps spent s i o s', I steps spent s → step s i = .ok (o, s') →
      I (steps + 1) (spent + c s i) s')
    (hrun : run step s is = .ok (os, t)) (hs : I steps spent s) :
    I (steps + is.length) (spent + cost step c s is) t := by
  induction is generalizing s os steps spent with
  | nil =>
    cases hrun
    exact hs
  | cons i is ih =>
    obtain ⟨o, s', os', hi, hrest, -⟩ := run_cons_ok.mp hrun
    have hrest := ih hrest (hstep steps spent s i o s' hs hi)
    rw [cost, hi, List.length_cons, Nat.add_comm is.length, ← Nat.add_assoc, ← Nat.add_assoc]
    exact hrest

theorem run_past {P : List ι → σ → Prop} {s t : σ} {is : List ι} {os : List ω} (hs : P [] s)
    (hstep : ∀ past os s' i o s'', run step s past = .ok (os, s') → P past s' →
      step s' i = .ok (o, s'') → P (past ++ [i]) s'')
    (hrun : run step s is = .ok (os, t)) : P is t := by
  induction is using List.reverseRecOn generalizing t os with
  | nil =>
    cases hrun
    exact hs
  | append_singleton past i ih =>
    obtain ⟨os₁, s', os₂, hpast, hlast, -⟩ := run_append_ok.mp hrun
    obtain ⟨o, s'', os', hi, hnil, -⟩ := run_cons_ok.mp hlast
    cases hnil
    exact hstep past os₁ s' i o t hpast (ih hpast) hi

/-- Some step of the run is as `R` says: from which state, on which call, to which state. -/
def Happened (step : σ → ι → Except ε (ω × σ)) (R : σ → ι → σ → Prop) (s : σ) (is : List ι) :
    Prop :=
  ∃ before i after os s' o s'', is = before ++ i :: after ∧ run step s before = .ok (os, s') ∧
    step s' i = .ok (o, s'') ∧ R s' i s''

theorem Happened.append {R : σ → ι → σ → Prop} {s : σ} {is : List ι} (h : Happened step R s is)
    (js : List ι) : Happened step R s (is ++ js) := by
  obtain ⟨before, i, after, os, s', o, s'', rfl, hrun, hi, hR⟩ := h
  exact ⟨before, i, after ++ js, os, s', o, s'', by simp, hrun, hi, hR⟩

theorem Happened.last {R : σ → ι → σ → Prop} {s s' s'' : σ} {is : List ι} {os : List ω} {i : ι}
    {o : ω} (hrun : run step s is = .ok (os, s')) (hi : step s' i = .ok (o, s''))
    (hR : R s' i s'') : Happened step R s (is ++ [i]) :=
  ⟨is, i, [], os, s', o, s'', rfl, hrun, hi, hR⟩

end Tendrilix.Machine
