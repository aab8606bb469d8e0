import Tendrilix.Machine
import Tendrilix.PrefixWord
import Tendrilix.Noise.CounterValidator

/-!
# The anti-replay window

The validator is compared with the set of counters accepted so far. `Tracks` is the invariant:
inside the window of the last `nBits` counters a bit is set exactly for the accepted ones. The
clearing loops are summarised by `Cleared`, which composes over adjacent ranges.
-/

namespace Tendrilix.Noise.ReplayWindow

open ReceivingKeyCounterValidator

/-- One more than the greatest accepted counter, `0` when there is none. -/
def nextOf (seen : Finset ℕ) : ℕ := seen.sup (· + 1)

def Acceptable (seen : Finset ℕ) (c : ℕ) : Prop := c ∉ seen ∧ nextOf seen ≤ c + 256

instance (seen : Finset ℕ) (c : ℕ) : Decidable (Acceptable seen c) :=
  inferInstanceAs (Decidable (_ ∧ _))

def accepted : List ℕ → List (Outcome Unit) → Finset ℕ
  | c :: cs, .ok () :: answers => insert c (accepted cs answers)
  | _ :: cs, .error _ :: answers => accepted cs answers
  | _, _ => ∅

theorem lt_nextOf {seen : Finset ℕ} {c : ℕ} (hc : c ∈ seen) : c < nextOf seen :=
  Finset.le_sup (f := (· + 1)) hc

theorem nextOf_insert (seen : Finset ℕ) (c : ℕ) :
    nextOf (insert c seen) = max (c + 1) (nextOf seen) := by
  rw [nextOf, Finset.sup_insert]
  rfl

theorem nBits_eq : nBits = 256 := rfl

theorem wordSize_eq : wordSize = 64 := rfl

theorem bitOf_lt (i : ℕ) : bitOf i < 64 := Nat.mod_lt _ (by decide)

theorem slot_eq_iff {i j : ℕ} : wordOf i = wordOf j ∧ bitOf i = bitOf j ↔ i % 256 = j % 256 := by
  simp only [wordOf, bitOf, nBits_eq, wordSize_eq, Fin.mk.injEq]
  omega

theorem checkBit_eq (v : ReceivingKeyCounterValidator) (i : ℕ) :
    v.checkBit i = (v.bitmap.get (wordOf i)).getLsbD (bitOf i) := by
  have hbit := bitOf_lt i
  have hback : 64 - 1 - (63 - bitOf i) = bitOf i := by omega
  have hat := PrefixWord.bitAt_eq (x := v.bitmap.get (wordOf i)) (i := 63 - bitOf i) (by omega)
  rw [PrefixWord.bitAt, hback] at hat
  rw [checkBit, hat, BitVec.getMsbD, hback]
  simp only [Bool.and_eq_right_iff_imp, decide_eq_true_eq]
  omega

theorem get_set {v : Vector (BitVec 64) 4} {k l : Fin 4} {x : BitVec 64} :
    (v.set k x).get l = if k = l then x else v.get l := by
  change (v.set k x)[l.val] = if k = l then x else v[l.val]
  rw [Vector.getElem_set]
  simp only [Fin.ext_iff]

theorem checkBit_setBit (v : ReceivingKeyCounterValidator) (i j : ℕ) :
    (v.setBit i).checkBit j = true ↔ i % 256 = j % 256 ∨ v.checkBit j = true := by
  have hbit := bitOf_lt j
  rw [checkBit_eq, checkBit_eq, setBit, ← slot_eq_iff]
  simp only [get_set]
  by_cases hword : wordOf i = wordOf j
  · rw [if_pos hword, hword]
    simp only [BitVec.getLsbD_or, BitVec.getLsbD_shiftLeft, BitVec.getLsbD_one]
    by_cases heq : bitOf i = bitOf j
    · simp [heq, hbit]
    · simp [heq, hbit]
      omega
  · simp [hword]

theorem checkBit_clearBit (v : ReceivingKeyCounterValidator) (i j : ℕ) :
    (v.clearBit i).checkBit j = true ↔ i % 256 ≠ j % 256 ∧ v.checkBit j = true := by
  have hbit := bitOf_lt j
  rw [checkBit_eq, checkBit_eq, clearBit, Ne, ← slot_eq_iff]
  simp only [get_set]
  by_cases hword : wordOf i = wordOf j
  · rw [if_pos hword, hword]
    simp only [BitVec.getLsbD_and, BitVec.getLsbD_not, BitVec.getLsbD_shiftLeft, BitVec.getLsbD_one]
    by_cases heq : bitOf i = bitOf j
    · simp [heq, hbit]
    · simp [heq, hbit]
      omega
  · simp [hword]

theorem checkBit_clearWord (v : ReceivingKeyCounterValidator) (i j : ℕ) :
    (v.clearWord i).checkBit j = true ↔ wordOf i ≠ wordOf j ∧ v.checkBit j = true := by
  rw [checkBit_eq, checkBit_eq, clearWord]
  simp only [get_set]
  by_cases hword : wordOf i = wordOf j
  · simp [hword]
  · simp [hword]

structure Cleared (v v' : ReceivingKeyCounterValidator) (a b : ℕ) : Prop where
  next_eq : v'.next = v.next
  receiveCnt_eq : v'.receiveCnt = v.receiveCnt
  bit_iff : ∀ j, v'.checkBit j = true ↔
    (∀ i, a ≤ i → i < b → i % 256 ≠ j % 256) ∧ v.checkBit j = true

theorem Cleared.refl (v : ReceivingKeyCounterValidator) (a : ℕ) : Cleared v v a a where
  next_eq := rfl
  receiveCnt_eq := rfl
  bit_iff := by
    intro j
    refine ⟨fun h => ⟨fun i _ _ => by omega, h⟩, And.right⟩

theorem Cleared.trans {v v' v'' : ReceivingKeyCounterValidator} {a b c : ℕ}
    (h : Cleared v v' a b) (h' : Cleared v' v'' b c) (hab : a ≤ b) (hbc : b ≤ c) :
    Cleared v v'' a c where
  next_eq := h'.next_eq.trans h.next_eq
  receiveCnt_eq := h'.receiveCnt_eq.trans h.receiveCnt_eq
  bit_iff := by
    intro j
    rw [h'.bit_iff, h.bit_iff]
    constructor
    · intro hj
      refine ⟨fun i hai hic => ?_, hj.2.2⟩
      rcases Nat.lt_or_ge i b with hib | hbi
      · exact hj.2.1 i hai hib
      · exact hj.1 i hbi hic
    · intro hj
      exact ⟨fun i hbi hic => hj.1 i (by omega) hic, fun i hai hib => hj.1 i hai (by omega), hj.2⟩

theorem Cleared.clearBit (v : ReceivingKeyCounterValidator) (i : ℕ) :
    Cleared v (v.clearBit i) i (i + 1) where
  next_eq := rfl
  receiveCnt_eq := rfl
  bit_iff := by
    intro j
    rw [checkBit_clearBit]
    refine and_congr_left fun _ => ⟨fun h k hik hki => ?_, fun h => h i (by omega) (by omega)⟩
    have hk : k = i := by omega
    exact hk ▸ h

theorem Cleared.clearWord (v : ReceivingKeyCounterValidator) {i : ℕ} (hi : i % 64 = 0) :
    Cleared v (v.clearWord i) i (i + 64) where
  next_eq := rfl
  receiveCnt_eq := rfl
  bit_iff := by
    intro j
    rw [checkBit_clearWord]
    simp only [wordOf, nBits_eq, wordSize_eq, ne_eq, Fin.mk.injEq]
    refine and_congr_left fun _ => ⟨fun h k hik hki => by omega, fun h heq => ?_⟩
    exact h (i + j % 64) (by omega) (by omega) (by omega)

theorem align_eq {i : ℕ} (hi : i % 64 = 0) (hlt : i < 2 ^ 64) :
    (BitVec.ofNat 64 i &&& (0#64 - 64#64)).toNat = i := by
  have hmask : ∀ k : Fin 64, (0#64 - 64#64).getLsbD k = decide (6 ≤ k.val) := by decide
  have hlow : ∀ k < 6, i.testBit k = false := by
    intro k hk
    have hpow : i % 2 ^ 6 = 0 := hi
    have htest : (i % 2 ^ 6).testBit k = i.testBit k := by
      rw [Nat.testBit_mod_two_pow]
      simp [hk]
    rw [← htest, hpow, Nat.zero_testBit]
  have hand : BitVec.ofNat 64 i &&& (0#64 - 64#64) = BitVec.ofNat 64 i := by
    apply BitVec.eq_of_getLsbD_eq
    intro k hk
    rw [BitVec.getLsbD_and, hmask ⟨k, hk⟩, BitVec.getLsbD_ofNat]
    rcases Nat.lt_or_ge k 6 with hk6 | hk6
    · simp [hlow k hk6]
    · simp [hk6]
  rw [hand, BitVec.toNat_ofNat, Nat.mod_eq_of_lt hlt]

theorem clearToWord_spec (fuel : ℕ) {counter i : ℕ} {v : ReceivingKeyCounterValidator}
    (hi : i ≤ counter) (hlt : counter < 2 ^ 64) (hfuel : counter - i < fuel) :
    ∃ v' i', clearToWord counter fuel v i = .ok (v', i') ∧ Cleared v v' i i' ∧ i ≤ i' ∧
      i' ≤ counter ∧ (i' % 64 = 0 ∨ i' = counter) := by
  induction fuel generalizing v i with
  | zero => omega
  | succ fuel ih =>
    rw [clearToWord, wordSize_eq]
    by_cases hturn : i % 64 ≠ 0 ∧ i < counter
    · obtain ⟨v', i', hrun, hcl, hle, hle', hend⟩ :=
        ih (v := v.clearBit i) (i := i + 1) (by omega) (by omega)
      rw [if_pos hturn, addU64_eq (by omega), ok_bind]
      exact ⟨v', i', hrun, (Cleared.clearBit v i).trans hcl (by omega) hle, by omega, hle', hend⟩
    · rw [if_neg hturn]
      exact ⟨v, i, rfl, Cleared.refl v i, le_rfl, hi, by omega⟩

theorem clearWords_spec (fuel : ℕ) {counter i : ℕ} {v : ReceivingKeyCounterValidator}
    (hi : i ≤ counter) (hlt : counter + 64 < 2 ^ 64) (hfuel : counter - i < fuel)
    (halign : i % 64 = 0 ∨ i = counter) :
    ∃ v' i', clearWords counter fuel v i = .ok (v', i') ∧ Cleared v v' i i' ∧ i ≤ i' ∧
      i' ≤ counter := by
  induction fuel generalizing v i with
  | zero => omega
  | succ fuel ih =>
    rw [clearWords, wordSize_eq, addU64_eq (by omega), ok_bind]
    by_cases hturn : i + 64 < counter
    · have hword : i % 64 = 0 := by omega
      obtain ⟨v', i', hrun, hcl, hle, hle'⟩ :=
        ih (v := v.clearWord i) (i := i + 64) (by omega) (by omega) (.inl (by omega))
      rw [if_pos hturn, ok_bind, align_eq (by omega) (by omega)]
      exact ⟨v', i', hrun, (Cleared.clearWord v hword).trans hcl (by omega) hle, by omega, hle'⟩
    · rw [if_neg hturn]
      exact ⟨v, i, rfl, Cleared.refl v i, le_rfl, hi⟩

theorem clearRest_spec (fuel : ℕ) {counter i : ℕ} {v : ReceivingKeyCounterValidator}
    (hi : i ≤ counter) (hlt : counter < 2 ^ 64) (hfuel : counter - i < fuel) :
    ∃ v', clearRest counter fuel v i = .ok v' ∧ Cleared v v' i counter := by
  induction fuel generalizing v i with
  | zero => omega
  | succ fuel ih =>
    rw [clearRest]
    by_cases hturn : i < counter
    · obtain ⟨v', hrun, hcl⟩ := ih (v := v.clearBit i) (i := i + 1) (by omega) (by omega)
      rw [if_pos hturn, addU64_eq (by omega), ok_bind]
      exact ⟨v', hrun, (Cleared.clearBit v i).trans hcl (by omega) (by omega)⟩
    · have heq : i = counter := by omega
      rw [if_neg hturn]
      exact ⟨v, rfl, heq ▸ Cleared.refl v i⟩

theorem cleared_all {v : ReceivingKeyCounterValidator} {a b : ℕ} (hab : a + 256 ≤ b) :
    Cleared v { v with bitmap := v.bitmap.map fun _ => 0#64 } a b where
  next_eq := rfl
  receiveCnt_eq := rfl
  bit_iff := by
    intro j
    have hzero : checkBit { v with bitmap := v.bitmap.map fun _ => 0#64 } j = false := by
      rw [checkBit_eq]
      change ((v.bitmap.map fun _ => 0#64)[(wordOf j).val]).getLsbD (bitOf j) = false
      simp only [Vector.getElem_map, BitVec.getLsbD_zero]
    rw [hzero]
    refine ⟨(nomatch ·), fun h => ?_⟩
    have hhit := h.1 (a + (j + 256 - a % 256) % 256) (by omega) (by omega)
    omega

theorem clearSkipped_spec {v : ReceivingKeyCounterValidator} {counter : ℕ}
    (hle : v.next ≤ counter) (hlt : counter + 64 < 2 ^ 64) :
    ∃ v', v.clearSkipped counter = .ok v' ∧ Cleared v v' v.next counter := by
  rw [clearSkipped, nBits_eq]
  by_cases hfar : 256 ≤ counter - v.next
  · rw [if_pos hfar]
    exact ⟨_, rfl, cleared_all (by omega)⟩
  · obtain ⟨v₁, i₁, h₁, c₁, hle₁, hi₁, halign⟩ :=
      clearToWord_spec (counter - v.next + 1) (v := v) hle (by omega) (by omega)
    obtain ⟨v₂, i₂, h₂, c₂, hle₂, hi₂⟩ :=
      clearWords_spec (counter - v.next + 1) (v := v₁) hi₁ hlt (by omega) halign
    obtain ⟨v₃, h₃, c₃⟩ :=
      clearRest_spec (counter - v.next + 1) (v := v₂) hi₂ (by omega) (by omega)
    rw [if_neg hfar]
    simp only [h₁, h₂, ok_bind]
    exact ⟨v₃, h₃, (c₁.trans c₂ hle₁ hle₂).trans c₃ (by omega) hi₂⟩

structure Tracks (v : ReceivingKeyCounterValidator) (seen : Finset ℕ) : Prop where
  next_eq : v.next = nextOf seen
  next_le : v.next ≤ rejectAfterMessages
  bit_iff : ∀ c, c < v.next → v.next ≤ c + 256 → (v.checkBit c = true ↔ c ∈ seen)

variable {v : ReceivingKeyCounterValidator} {seen : Finset ℕ} {c : ℕ}

theorem tracks_empty : Tracks {} ∅ where
  next_eq := rfl
  next_le := Nat.zero_le _
  bit_iff := by
    intro c hc
    exact absurd hc (Nat.not_lt_zero c)

theorem Tracks.setReceiveCnt (h : Tracks v seen) (receiveCnt : ℕ) :
    Tracks { v with receiveCnt := receiveCnt } seen where
  next_eq := h.next_eq
  next_le := h.next_le
  bit_iff := h.bit_iff

theorem Tracks.not_mem (h : Tracks v seen) (hc : v.next ≤ c) : c ∉ seen := by
  intro hmem
  have hlt := lt_nextOf hmem
  rw [← h.next_eq] at hlt
  omega

theorem Tracks.reject_lt (h : Tracks v seen) : v.next + 2 ^ 16 < 2 ^ 64 := by
  have hle := h.next_le
  rw [rejectAfterMessages_eq] at hle
  omega

theorem Tracks.advance {v' : ReceivingKeyCounterValidator} (h : Tracks v seen)
    (hcl : Cleared v v' v.next c) (hle : v.next ≤ c) (hc : c < rejectAfterMessages) :
    Tracks { v'.setBit c with next := c + 1 } (insert c seen) where
  next_eq := by
    change c + 1 = _
    rw [nextOf_insert, ← h.next_eq]
    exact (max_eq_left (by omega)).symm
  next_le := hc
  bit_iff := by
    intro d hd hwin
    have hd : d < c + 1 := hd
    have hwin : c + 1 ≤ d + 256 := hwin
    change (v'.setBit c).checkBit d = true ↔ _
    rw [checkBit_setBit, hcl.bit_iff, Finset.mem_insert]
    rcases Nat.lt_or_ge d v.next with hlt | hge
    · rw [h.bit_iff d hlt (by omega)]
      constructor
      · intro hor
        rcases hor with hmod | hand
        · omega
        · exact .inr hand.2
      · intro hor
        rcases hor with hdc | hmem
        · omega
        · exact .inr ⟨fun i hi hic => by omega, hmem⟩
    · have hout : d ∉ seen := h.not_mem hge
      constructor
      · intro hor
        rcases hor with hmod | hand
        · exact .inl (by omega)
        · by_contra hno
          exact hand.1 d (by omega) (by omega) rfl
      · intro hor
        rcases hor with hdc | hmem
        · exact .inl (by rw [hdc])
        · exact absurd hmem hout

theorem Tracks.fill (h : Tracks v seen) (hlt : c < v.next) (hwin : v.next ≤ c + 256) :
    Tracks (v.setBit c) (insert c seen) where
  next_eq := by
    change v.next = _
    rw [nextOf_insert, ← h.next_eq]
    exact (max_eq_right (by omega)).symm
  next_le := h.next_le
  bit_iff := by
    intro d hd hdwin
    have hd : d < v.next := hd
    have hdwin : v.next ≤ d + 256 := hdwin
    rw [checkBit_setBit, h.bit_iff d hd hdwin, Finset.mem_insert]
    have hmod : c % 256 = d % 256 ↔ d = c := by omega
    rw [hmod]

structure Marked (v : ReceivingKeyCounterValidator) (seen : Finset ℕ) (c : ℕ)
    (r : Outcome Unit) (v' : ReceivingKeyCounterValidator) : Prop where
  accepts_iff : r = .ok () ↔ Acceptable seen c
  tracks : r = .ok () → Tracks v' (insert c seen)
  unchanged : r ≠ .ok () → v' = v
  receiveCnt_eq : v'.receiveCnt = v.receiveCnt

theorem Marked.accept {v' : ReceivingKeyCounterValidator} (hacc : Acceptable seen c)
    (htracks : Tracks v' (insert c seen)) (hcnt : v'.receiveCnt = v.receiveCnt) :
    Marked v seen c (.ok ()) v' where
  accepts_iff := ⟨fun _ => hacc, fun _ => rfl⟩
  tracks := fun _ => htracks
  unchanged := fun h => absurd rfl h
  receiveCnt_eq := hcnt

theorem Marked.reject {e : WireGuardError} (hacc : ¬Acceptable seen c) :
    Marked v seen c (.error e) v where
  accepts_iff := ⟨(nomatch ·), fun h => absurd h hacc⟩
  tracks := (nomatch ·)
  unchanged := fun _ => rfl
  receiveCnt_eq := rfl

theorem markDidReceive_spec (h : Tracks v seen) (hc : c < rejectAfterMessages) :
    ∃ r v', v.markDidReceive c = .ok (r, v') ∧ Marked v seen c r v' := by
  have hnext := h.reject_lt
  have hroom : c + 2 ^ 16 < 2 ^ 64 := by
    rw [rejectAfterMessages_eq] at hc
    omega
  rw [markDidReceive, nBits_eq, addU64_eq (by omega), ok_bind]
  by_cases hold : c + 256 < v.next
  · rw [if_pos hold]
    refine ⟨_, _, rfl, .reject fun hacc => ?_⟩
    have hwin := hacc.2
    rw [← h.next_eq] at hwin
    omega
  have hwin : nextOf seen ≤ c + 256 := h.next_eq ▸ Nat.le_of_not_lt hold
  rw [if_neg hold]
  by_cases hin : c = v.next
  · have hcl : Cleared v v v.next c := hin ▸ Cleared.refl v _
    rw [if_pos hin, addU64_eq (by omega), ok_bind, ← hin]
    exact ⟨_, _, rfl, .accept ⟨h.not_mem hin.ge, hwin⟩ (h.advance hcl hin.ge hc) rfl⟩
  rw [if_neg hin]
  by_cases hlt : c < v.next
  · have hbit := h.bit_iff c hlt (Nat.le_of_not_lt hold)
    rw [if_pos hlt]
    by_cases hset : v.checkBit c = true
    · rw [if_pos hset]
      exact ⟨_, _, rfl, .reject fun hacc => hacc.1 (hbit.mp hset)⟩
    · rw [if_neg hset]
      refine ⟨_, _, rfl, .accept ⟨fun hmem => hset (hbit.mpr hmem), hwin⟩ ?_ rfl⟩
      exact h.fill hlt (Nat.le_of_not_lt hold)
  · have hle : v.next ≤ c := Nat.le_of_not_lt hlt
    obtain ⟨v', hskip, hcl⟩ := clearSkipped_spec hle (by omega)
    rw [if_neg hlt, hskip, ok_bind, addU64_eq (by omega), ok_bind]
    exact ⟨_, _, rfl, .accept ⟨h.not_mem hle, hwin⟩ (h.advance hcl hle hc) hcl.receiveCnt_eq⟩

theorem willAccept_spec (h : Tracks v seen) (hc : c < rejectAfterMessages) :
    ∃ r, v.willAccept c = .ok r ∧ (r = .ok () ↔ Acceptable seen c) := by
  rw [willAccept]
  by_cases hle : v.next ≤ c
  · rw [if_pos hle]
    refine ⟨_, rfl, fun _ => ⟨h.not_mem hle, ?_⟩, fun _ => rfl⟩
    rw [← h.next_eq]
    omega
  have hroom : c + 256 < 2 ^ 64 := by
    rw [rejectAfterMessages_eq] at hc
    omega
  rw [if_neg hle, nBits_eq, addU64_eq hroom, ok_bind]
  by_cases hold : c + 256 < v.next
  · rw [if_pos hold]
    refine ⟨_, rfl, (nomatch ·), fun hacc => ?_⟩
    have hwin := hacc.2
    rw [← h.next_eq] at hwin
    omega
  have hbit := h.bit_iff c (by omega) (by omega)
  rw [if_neg hold]
  by_cases hset : v.checkBit c = true
  · rw [hset]
    exact ⟨_, rfl, (nomatch ·), fun hacc => absurd (hbit.mp hset) hacc.1⟩
  · rw [Bool.not_eq_true] at hset
    rw [hset]
    refine ⟨_, rfl, fun _ => ⟨fun hmem => ?_, h.next_eq ▸ Nat.le_of_not_lt hold⟩, fun _ => rfl⟩
    exact nomatch hset.symm.trans (hbit.mpr hmem)

theorem run_tracks {cs : List ℕ} (hcs : ∀ c ∈ cs, c < rejectAfterMessages) (h : Tracks v seen) :
    ∃ answers v', Machine.run markDidReceive v cs = .ok (answers, v') ∧
      Tracks v' (seen ∪ accepted cs answers) := by
  induction cs generalizing v seen with
  | nil =>
    refine ⟨[], v, rfl, ?_⟩
    simpa only [accepted, Finset.union_empty] using h
  | cons c cs ih =>
    have hrest : ∀ d ∈ cs, d < rejectAfterMessages := fun d hd => hcs d (by simp [hd])
    obtain ⟨r, v₁, hcall, hmark⟩ := markDidReceive_spec h (hcs c (by simp))
    cases r with
    | ok u =>
      obtain ⟨answers, v', hrun, htracks⟩ := ih hrest (hmark.tracks rfl)
      refine ⟨.ok u :: answers, v', Machine.run_cons_ok.mpr ⟨_, _, _, hcall, hrun, rfl⟩, ?_⟩
      rwa [accepted, Finset.union_insert, ← Finset.insert_union]
    | error e =>
      rw [hmark.unchanged (nomatch ·)] at hcall
      obtain ⟨answers, v', hrun, htracks⟩ := ih hrest h
      exact ⟨.error e :: answers, v', Machine.run_cons_ok.mpr ⟨_, _, _, hcall, hrun, rfl⟩, htracks⟩

/-- After any sequence of calls on a fresh validator, the next call accepts a counter exactly
when it is new and inside the window, a rejected call changes nothing, the quick check foretells
the answer, and no addition has overflowed. -/
theorem markDidReceive_refines_seen (cs : List ℕ) (hcs : ∀ c ∈ cs, c < rejectAfterMessages) :
    ∃ answers v, Machine.run markDidReceive {} cs = .ok (answers, v) ∧
      v.next = nextOf (accepted cs answers) ∧
      ∀ c < rejectAfterMessages, ∃ r v' quick, v.markDidReceive c = .ok (r, v') ∧
        v.willAccept c = .ok quick ∧
        (r = .ok () ↔ c ∉ accepted cs answers ∧ nextOf (accepted cs answers) ≤ c + 256) ∧
        (r ≠ .ok () → v' = v) ∧ (quick = .ok () ↔ r = .ok ()) := by
  obtain ⟨answers, v, hrun, htracks⟩ := run_tracks hcs tracks_empty
  rw [Finset.empty_union] at htracks
  refine ⟨answers, v, hrun, htracks.next_eq, fun c hc => ?_⟩
  obtain ⟨r, v', hcall, hmark⟩ := markDidReceive_spec htracks hc
  obtain ⟨quick, hquick, hiff⟩ := willAccept_spec htracks hc
  exact ⟨r, v', quick, hcall, hquick, hmark.accepts_iff, hmark.unchanged,
    hiff.trans hmark.accepts_iff.symm⟩

theorem markDidReceive_refines_seen_jump :
    (∀ c ∈ [0, 63, 300, 63], c < rejectAfterMessages) ∧
      ∃ answers v, Machine.run markDidReceive {} [0, 63, 300, 63] = .ok (answers, v) ∧
        v.next = nextOf (accepted [0, 63, 300, 63] answers) := by
  have hcs : ∀ c ∈ [0, 63, 300, 63], c < rejectAfterMessages := by decide
  obtain ⟨answers, v, hrun, hnext, -⟩ := markDidReceive_refines_seen [0, 63, 300, 63] hcs
  exact ⟨hcs, answers, v, hrun, hnext⟩

end Tendrilix.Noise.ReplayWindow
