import Tendrilix.Fault

/-!
# Postconditions of calls

`Ensures call Q E` says what a call that returns guarantees and how a call that fails may fail. A
sequence of calls is taken apart with `Ensures.bind`. `Avoids e call` is the part about one error.
-/

namespace Tendrilix

variable {ε α β : Type}

def Ensures (call : Except ε α) (Q : α → Prop) (E : ε → Prop) : Prop :=
  (∀ a, call = .ok a → Q a) ∧ ∀ e, call = .error e → E e

namespace Ensures

variable {call : Except ε α} {Q Q' : α → Prop} {E E' : ε → Prop}

theorem ok {a : α} (h : Q a) : Ensures (.ok a) Q E := by
  refine ⟨fun b hb => ?_, nofun⟩
  cases hb
  exact h

theorem error {e : ε} (h : E e) : Ensures (.error e) Q E := by
  refine ⟨nofun, fun f hf => ?_⟩
  cases hf
  exact h

theorem bind {next : α → Except ε β} {R : β → Prop} (h : Ensures call Q E)
    (hnext : ∀ a, call = .ok a → Q a → Ensures (next a) R E) : Ensures (call >>= next) R E := by
  constructor
  · intro b hb
    obtain ⟨a, ha, hb⟩ := bind_ok_iff.mp hb
    exact (hnext a ha (h.1 a ha)).1 b hb
  · intro e he
    rcases bind_error_iff.mp he with he | ⟨a, ha, he⟩
    · exact h.2 e he
    · exact (hnext a ha (h.1 a ha)).2 e he

end Ensures

def Avoids (e : ε) (call : Except ε α) : Prop := call ≠ .error e

namespace Avoids

variable {e : ε} {call : Except ε α}

theorem ok (a : α) : Avoids e (.ok a : Except ε α) := nofun

theorem error {e' : ε} (h : e' ≠ e) : Avoids e (.error e' : Except ε α) := by
  intro heq
  cases heq
  exact h rfl

theorem bind {next : α → Except ε β} (h : Avoids e call)
    (hnext : ∀ a, call = .ok a → Avoids e (next a)) : Avoids e (call >>= next) := by
  intro heq
  rcases bind_error_iff.mp heq with hcall | ⟨a, ha, hrest⟩
  · exact h hcall
  · exact hnext a ha hrest

theorem ensures (h : Avoids e call) : Ensures call (fun _ => True) (· ≠ e) := by
  refine ⟨fun _ _ => trivial, fun e' he' => ?_⟩
  rintro rfl
  exact h he'

theorem of_ensures {Q : α → Prop} {E : ε → Prop} (h : Ensures call Q E) (he : ¬E e) :
    Avoids e call := fun heq => he (h.2 e heq)

theorem mapM {f : α → Except ε β} {l : List α} (h : ∀ a ∈ l, Avoids e (f a)) :
    Avoids e (l.mapM f) := by
  induction l with
  | nil => exact ok _
  | cons a l ih =>
    rw [List.mapM_cons]
    refine bind (h a (by simp)) fun b _ => bind (ih fun a' ha' => h a' (by simp [ha'])) fun bs _ => ?_
    exact ok _

theorem foldlM {I : β → Prop} {f : β → α → Except ε β} (h : ∀ b a, I b → Avoids e (f b a))
    (hstep : ∀ b a b', I b → f b a = .ok b' → I b') (l : List α) {b : β} (hb : I b) :
    Avoids e (l.foldlM f b) := by
  induction l generalizing b with
  | nil => exact ok b
  | cons a l ih =>
    rw [List.foldlM_cons]
    exact bind (h b a hb) fun b' hb' => ih (hstep b a b' hb hb')

theorem unmeasured {f f' : Fault} (hf : f.Measured) (hf' : ¬f'.Measured) :
    Avoids f (.error f' : Call α) := by
  apply error
  rintro rfl
  exact hf' hf

end Avoids

theorem addU64_avoids {f : Fault} (hf : f.Measured) (a b : ℕ) : Avoids f (addU64 a b) := by
  rw [addU64]
  split
  · exact .ok _
  · exact .unmeasured hf id

end Tendrilix
