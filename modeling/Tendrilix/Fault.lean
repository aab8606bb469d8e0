import Mathlib.Tactic

/-!
# Faults and checked arithmetic

A modelled call either returns or faults. A fault is a panic of the source, named after the
check that raises it, or `diverged`, the mark a loop leaves when its fuel runs out. The results
about loops show that `diverged` does not occur.
-/

namespace Tendrilix

inductive Fault
  | indexOutOfBounds
  | unwrapFailed
  | arithmeticOverflow
  | durationUnderflow
  | destinationBufferTooSmall
  | packetHandleNotLive
  | packetHandleOutOfTable
  | unexpectedState
  | indexesExhausted
  | notInitialized
  | unexpectedResult
  | lengthMismatch
  | diverged
  deriving DecidableEq, Repr

def Fault.Measured : Fault → Prop
  | .destinationBufferTooSmall | .durationUnderflow => True
  | _ => False

theorem Fault.measured_room : destinationBufferTooSmall.Measured := trivial

theorem Fault.measured_duration : durationUnderflow.Measured := trivial

abbrev Call (α : Type) := Except Fault α

theorem bind_ok_iff {ε α β : Type} {call : Except ε α} {next : α → Except ε β} {b : β} :
    call >>= next = .ok b ↔ ∃ a, call = .ok a ∧ next a = .ok b := by
  rcases call with f | a
  · simp [bind, Except.bind]
  · simp [bind, Except.bind]

theorem bind_error_iff {ε α β : Type} {call : Except ε α} {next : α → Except ε β} {e : ε} :
    call >>= next = .error e ↔ call = .error e ∨ ∃ a, call = .ok a ∧ next a = .error e := by
  rcases call with g | a
  · simp [bind, Except.bind]
  · simp [bind, Except.bind]

@[simp] theorem ok_bind {ε α β : Type} (a : α) (next : α → Except ε β) :
    (Except.ok a : Except ε α) >>= next = next a := rfl

@[simp] theorem error_bind {ε α β : Type} (e : ε) (next : α → Except ε β) :
    (Except.error e : Except ε α) >>= next = .error e := rfl

@[simp] theorem pure_eq_ok {ε α : Type} (a : α) : (pure a : Except ε α) = .ok a := rfl

theorem mapM_eq_ok {ε α β : Type} {f : α → Except ε β} {g : α → β} {l : List α}
    (h : ∀ a ∈ l, f a = .ok (g a)) : l.mapM f = .ok (l.map g) := by
  induction l with
  | nil => rfl
  | cons a l ih =>
    rw [List.mapM_cons, h a (by simp), ih fun b hb => h b (by simp [hb])]
    rfl

theorem mapM_ok {ε α β : Type} {f : α → Except ε β} {l : List α} {bs : List β} (h : l.mapM f = .ok bs) :
    (∀ a ∈ l, ∃ b ∈ bs, f a = .ok b) ∧ ∀ b ∈ bs, ∃ a ∈ l, f a = .ok b := by
  induction l generalizing bs with
  | nil =>
    cases h
    simp
  | cons a l ih =>
    rw [List.mapM_cons] at h
    obtain ⟨b, hb, h⟩ := bind_ok_iff.mp h
    obtain ⟨bs', hbs, h⟩ := bind_ok_iff.mp h
    cases h
    obtain ⟨hforward, hback⟩ := ih hbs
    refine ⟨fun a' ha => ?_, fun b' hb' => ?_⟩
    · rcases List.mem_cons.mp ha with rfl | ha
      · exact ⟨b, List.mem_cons_self, hb⟩
      · obtain ⟨c, hc, hcall⟩ := hforward a' ha
        exact ⟨c, List.mem_cons_of_mem b hc, hcall⟩
    · rcases List.mem_cons.mp hb' with rfl | hb'
      · exact ⟨a, List.mem_cons_self, hb⟩
      · obtain ⟨c, hc, hcall⟩ := hback b' hb'
        exact ⟨c, List.mem_cons_of_mem a hc, hcall⟩

def okAnd {ε α : Type} (p : α → Bool) : Except ε α → Bool
  | .ok a => p a
  | .error _ => false

theorem exists_of_okAnd {ε α : Type} {p : α → Bool} {call : Except ε α} (h : okAnd p call = true) :
    ∃ a, call = .ok a ∧ p a = true := by
  cases call with
  | ok a => exact ⟨a, rfl, h⟩
  | error e => cases h

def u64Max : ℕ := 2 ^ 64 - 1

/-- `u64` addition, which panics in a checked build when the sum does not fit. -/
def addU64 (a b : ℕ) : Call ℕ :=
  if a + b ≤ u64Max then .ok (a + b) else .error .arithmeticOverflow

theorem addU64_eq {a b : ℕ} (h : a + b < 2 ^ 64) : addU64 a b = .ok (a + b) :=
  if_pos (Nat.le_sub_one_of_lt h)

theorem addU64_ok {a b sum : ℕ} (h : addU64 a b = .ok sum) : a + b < 2 ^ 64 ∧ sum = a + b := by
  rw [addU64] at h
  split at h
  · rename_i hfits
    cases h
    exact ⟨Nat.lt_of_le_sub_one (by decide) hfits, rfl⟩
  · cases h

end Tendrilix
