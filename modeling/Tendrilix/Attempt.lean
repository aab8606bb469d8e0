import Tendrilix.Fault

/-!
# Attempts

An attempt reads and changes a state and succeeds or fails. A failed attempt keeps the changes made
before the failure, so a rule about it speaks of the state in both cases: `Triple P x Q E` says that
from a state with `P` the attempt ends in a state with `Q` when it succeeds and in one with `E` when
it fails.
-/

namespace Tendrilix

variable {ε σ α β ι : Type}

def Attempt (ε σ α : Type) := σ → Call (Except ε α × σ)

namespace Attempt

def andThen (x : Attempt ε σ α) (f : α → Attempt ε σ β) : Attempt ε σ β := fun s =>
  match x s with
  | .error fault => .error fault
  | .ok (.error e, s') => .ok (.error e, s')
  | .ok (.ok a, s') => f a s'

instance : Monad (Attempt ε σ) where
  pure a := fun s => .ok (.ok a, s)
  bind := andThen

def fail (e : ε) : Attempt ε σ α := fun s => .ok (.error e, s)

def get : Attempt ε σ σ := fun s => .ok (.ok s, s)

def modify (f : σ → σ) : Attempt ε σ Unit := fun s => .ok (.ok (), f s)

def ofExcept : Except ε α → Attempt ε σ α
  | .ok a => pure a
  | .error e => fail e

def fault (f : Fault) : Attempt ε σ α := fun _ => .error f

def catching (x : Attempt ε σ α) (handler : ε → Attempt ε σ α) : Attempt ε σ α := fun s =>
  match x s with
  | .error fault => .error fault
  | .ok (.error e, s') => handler e s'
  | .ok (.ok a, s') => .ok (.ok a, s')

def forEach : List ι → (ι → Attempt ε σ Unit) → Attempt ε σ Unit
  | [], _ => pure ()
  | i :: is, f => do
    f i
    forEach is f

def mapError {ε' : Type} (f : ε → ε') (x : Attempt ε σ α) : Attempt ε' σ α := fun s =>
  match x s with
  | .error fault => .error fault
  | .ok (.error e, s') => .ok (.error (f e), s')
  | .ok (.ok a, s') => .ok (.ok a, s')

theorem bind_of_ok {x : Attempt ε σ α} {f : α → Attempt ε σ β} {s s' : σ} {a : α}
    (h : x s = .ok (.ok a, s')) : (x >>= f) s = f a s' := by
  change andThen x f s = _
  rw [andThen, h]

theorem bind_of_error {x : Attempt ε σ α} {f : α → Attempt ε σ β} {s s' : σ} {e : ε}
    (h : x s = .ok (.error e, s')) : (x >>= f) s = .ok (.error e, s') := by
  change andThen x f s = _
  rw [andThen, h]

theorem bind_eq_ok {x : Attempt ε σ α} {f : α → Attempt ε σ β} {s t : σ} {b : β} :
    (x >>= f) s = .ok (.ok b, t) ↔ ∃ a s', x s = .ok (.ok a, s') ∧ f a s' = .ok (.ok b, t) := by
  constructor
  · intro h
    change andThen x f s = _ at h
    rw [andThen] at h
    split at h
    · cases h
    · cases h
    · rename_i a s' hfirst
      exact ⟨a, s', hfirst, h⟩
  · intro ⟨a, s', hfirst, h⟩
    rw [bind_of_ok hfirst, h]

theorem mapError_bind_pure {ε' : Type} {f : ε → ε'} {x : Attempt ε σ α} {g : α → β} {s t : σ}
    {outcome : Except ε' β}
    (h : (do let a ← mapError f x; pure (g a) : Attempt ε' σ β) s = .ok (outcome, t)) :
    (∃ a, x s = .ok (.ok a, t) ∧ outcome = .ok (g a)) ∨
      ∃ e, x s = .ok (.error e, t) ∧ outcome = .error (f e) := by
  change andThen (mapError f x) _ s = _ at h
  rw [andThen, mapError] at h
  cases hx : x s with
  | error fault =>
    rw [hx] at h
    cases h
  | ok p =>
    obtain ⟨result, s'⟩ := p
    rw [hx] at h
    cases result with
    | error e =>
      cases h
      exact .inr ⟨e, rfl, rfl⟩
    | ok a =>
      cases h
      exact .inl ⟨a, rfl, rfl⟩

def Triple (P : σ → Prop) (x : Attempt ε σ α) (Q : α → σ → Prop) (E : σ → Prop) : Prop :=
  ∀ s, P s → ∀ r s', x s = .ok (r, s') →
    match r with
    | .ok a => Q a s'
    | .error _ => E s'

namespace Triple

variable {P P' : σ → Prop} {x : Attempt ε σ α} {Q Q' : α → σ → Prop} {E E' : σ → Prop}

theorem pure (a : α) (h : ∀ s, P s → Q a s) : Triple P (Pure.pure a : Attempt ε σ α) Q E := by
  intro s hs r s' hrun
  cases hrun
  exact h s hs

theorem fail {e : ε} (h : ∀ s, P s → E s) : Triple P (Attempt.fail e : Attempt ε σ α) Q E := by
  intro s hs r s' hrun
  cases hrun
  exact h s hs

theorem get : Triple P (Attempt.get : Attempt ε σ σ) (fun r s => r = s ∧ P s) E := by
  intro s hs r s' hrun
  cases hrun
  exact ⟨rfl, hs⟩

theorem modify {f : σ → σ} {R : Unit → σ → Prop} (h : ∀ s, P s → R () (f s)) :
    Triple P (Attempt.modify f : Attempt ε σ Unit) R E := by
  intro s hs r s' hrun
  cases hrun
  exact h s hs

theorem bind {f : α → Attempt ε σ β} {R : β → σ → Prop} (hx : Triple P x Q E)
    (hf : ∀ a, Triple (Q a) (f a) R E) : Triple P (x >>= f) R E := by
  intro s hs r s' hrun
  change andThen x f s = _ at hrun
  rw [andThen] at hrun
  split at hrun
  · cases hrun
  · rename_i e s₁ hfirst
    cases hrun
    exact hx s hs _ _ hfirst
  · rename_i a s₁ hfirst
    exact hf a s₁ (hx s hs _ _ hfirst) r s' hrun

theorem mono (h : Triple P x Q E) (hP : ∀ s, P' s → P s) (hQ : ∀ a s, Q a s → Q' a s)
    (hE : ∀ s, E s → E' s) : Triple P' x Q' E' := by
  intro s hs r s' hrun
  have hpost := h s (hP s hs) r s' hrun
  cases r with
  | ok a => exact hQ a s' hpost
  | error e => exact hE s' hpost

theorem true : Triple P x (fun _ _ => True) (fun _ => True) := by
  intro s hs r s' hrun
  cases r with
  | ok a => trivial
  | error e => trivial

theorem fromState (h : ∀ s, P s → Triple (· = s) x Q E) : Triple P x Q E :=
  fun s hs => h s hs s rfl

theorem assume {p : Prop} (h : p → Triple P x Q E) : Triple (fun s => P s ∧ p) x Q E :=
  fun s hs => h hs.2 s hs.1

theorem ofExcept {outcome : Except ε α} (hok : ∀ a, outcome = .ok a → ∀ s, P s → Q a s)
    (herror : ∀ s, P s → E s) : Triple P (Attempt.ofExcept outcome) Q E := by
  cases outcome with
  | ok a => exact pure a (hok a rfl)
  | error e => exact fail herror

theorem fault {f : Fault} : Triple P (Attempt.fault f : Attempt ε σ α) Q E := by
  intro s hs r s' hrun
  cases hrun

theorem catching {handler : ε → Attempt ε σ α} (hx : Triple P x Q E')
    (hhandler : ∀ e, Triple E' (handler e) Q E) : Triple P (Attempt.catching x handler) Q E := by
  intro s hs r s' hrun
  rw [Attempt.catching] at hrun
  split at hrun
  · cases hrun
  · rename_i e s₁ hfirst
    exact hhandler e s₁ (hx s hs _ _ hfirst) r s' hrun
  · rename_i a s₁ hfirst
    cases hrun
    exact hx s hs _ _ hfirst

/-- The rule of a loop. `I` is told how much of the list is done and how much is left. -/
theorem forEach {I : List ι → List ι → σ → Prop} {f : ι → Attempt ε σ Unit} (items : List ι)
    (hstep : ∀ done i left, items = done ++ i :: left →
      Triple (I done (i :: left)) (f i) (fun _ => I (done ++ [i]) left) E) :
    Triple (I [] items) (Attempt.forEach items f) (fun _ => I items []) E := by
  suffices hloop : ∀ left done, items = done ++ left →
      Triple (I done left) (Attempt.forEach left f) (fun _ => I items []) E from hloop items [] rfl
  intro left
  induction left with
  | nil =>
    intro done hitems
    rw [List.append_nil] at hitems
    rw [hitems]
    exact pure () fun s hs => hs
  | cons i left ih =>
    intro done hitems
    apply bind (hstep done i left hitems)
    intro _
    exact ih (done ++ [i]) (by rw [hitems, List.append_assoc]; rfl)

end Triple

def Keeps (I : σ → Prop) (x : Attempt ε σ α) : Prop := Triple I x (fun _ => I) I

namespace Keeps

variable {I : σ → Prop} {x : Attempt ε σ α}

theorem pure (a : α) : Keeps I (Pure.pure a : Attempt ε σ α) := Triple.pure a fun _ hs => hs

theorem fail (e : ε) : Keeps I (Attempt.fail e : Attempt ε σ α) := Triple.fail fun _ hs => hs

theorem fault (f : Fault) : Keeps I (Attempt.fault f : Attempt ε σ α) := Triple.fault

theorem get : Keeps I (Attempt.get : Attempt ε σ σ) :=
  Triple.get.mono (fun _ hs => hs) (fun _ _ hs => hs.2) fun _ hs => hs

theorem modify {f : σ → σ} (h : ∀ s, I s → I (f s)) : Keeps I (Attempt.modify f : Attempt ε σ Unit) :=
  Triple.modify h

theorem ofExcept (outcome : Except ε α) : Keeps I (Attempt.ofExcept outcome) :=
  Triple.ofExcept (fun _ _ _ hs => hs) fun _ hs => hs

theorem bind {f : α → Attempt ε σ β} (hx : Keeps I x) (hf : ∀ a, Keeps I (f a)) :
    Keeps I (x >>= f) := Triple.bind hx hf

theorem catching {handler : ε → Attempt ε σ α} (hx : Keeps I x) (hhandler : ∀ e, Keeps I (handler e)) :
    Keeps I (Attempt.catching x handler) := Triple.catching hx hhandler

theorem forEach {f : ι → Attempt ε σ Unit} {items : List ι} (hf : ∀ i ∈ items, Keeps I (f i)) :
    Keeps I (Attempt.forEach items f) := by
  refine Triple.forEach (I := fun _ _ => I) items fun done i left hitems => hf i ?_
  rw [hitems]
  simp

end Keeps

end Attempt

end Tendrilix
