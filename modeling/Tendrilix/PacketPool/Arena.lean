import Mathlib.Order.Interval.Set.Disjoint
import Tendrilix.Machine
import Tendrilix.PacketPool.Spec
import Mathlib.Order.CompletePartialOrder

/-!
# The arena of the fixed pool

Any sequence of `alloc` and `free` calls on the fixed pool in which only live handles are freed:
live packets keep their bytes in ranges of their own, and the gap that `findGap` returns is the
first one of all.
-/

namespace Tendrilix

open Noise (MessageType)

namespace FixedPool

variable {N BYTES : ℕ} {p p' : FixedPool N BYTES} {len start : ℕ}

/-! ### The search for a gap -/

theorem blocking_mem {s : FixedSlot} (h : p.blocking start len = some s) :
    s ∈ p.slots ∧ s.used ∧ start < s.offset + s.len ∧ s.offset < start + len := by
  obtain ⟨hmem, hused⟩ := List.mem_filter.mp (List.mem_of_find?_eq_some h)
  have hhit := List.find?_some h
  simp only [Bool.and_eq_true, decide_eq_true_eq] at hhit
  exact ⟨hmem, hused, hhit⟩

theorem blocking_none_iff : p.blocking start len = none ↔
    ∀ s ∈ p.slots, s.used → s.offset + s.len ≤ start ∨ start + len ≤ s.offset := by
  rw [blocking, List.find?_eq_none]
  simp only [List.mem_filter, Bool.and_eq_true, decide_eq_true_eq, and_imp]
  refine forall₃_congr fun s _ _ => ?_
  omega

def gapsFrom (p : FixedPool N BYTES) (start len : ℕ) : Set ℕ :=
  {o | start ≤ o ∧ o + len ≤ BYTES ∧ p.blocking o len = none}

theorem gapsFrom_skip {s : FixedSlot} (h : p.blocking start len = some s) :
    p.gapsFrom start len = p.gapsFrom (s.offset + s.len) len := by
  obtain ⟨hmem, hused, hbefore, hafter⟩ := blocking_mem h
  ext o
  constructor
  · rintro ⟨hstart, hroom, hgap⟩
    refine ⟨?_, hroom, hgap⟩
    rcases blocking_none_iff.mp hgap s hmem hused with hend | hend
    · exact hend
    · omega
  · rintro ⟨hend, hroom, hgap⟩
    exact ⟨by omega, hroom, hgap⟩

/-- No assumption on the table: every turn moves `start` forward, since the slot in the way ends
behind it. -/
theorem findGapLoop_isLeast (p : FixedPool N BYTES) (len fuel start : ℕ)
    (hfuel : BYTES + 2 ≤ start + fuel) (hpos : 0 < fuel) :
    ∃ gap, p.findGapLoop len fuel start = .ok gap ∧
      ∀ o, gap = some o ↔ IsLeast (p.gapsFrom start len) o := by
  induction fuel generalizing start with
  | zero => exact absurd hpos (Nat.lt_irrefl 0)
  | succ fuel ih =>
    rw [findGapLoop]
    by_cases hend : BYTES < start + len
    · rw [if_pos hend]
      refine ⟨none, rfl, fun o => ⟨fun h => (by cases h), ?_⟩⟩
      rintro ⟨⟨hstart, hroom, -⟩, -⟩
      omega
    rw [if_neg hend]
    cases hblock : p.blocking start len with
    | some s =>
      have hmove := (blocking_mem hblock).2.2.1
      dsimp only
      rw [gapsFrom_skip hblock]
      exact ih _ (by omega) (by omega)
    | none =>
      have hleast : IsLeast (p.gapsFrom start len) start :=
        ⟨⟨le_rfl, by omega, hblock⟩, fun o ho => ho.1⟩
      refine ⟨some start, rfl, fun o => ?_⟩
      rw [Option.some.injEq]
      constructor
      · rintro rfl
        exact hleast
      · exact fun ho => hleast.unique ho

theorem findGap_isLeast (p : FixedPool N BYTES) (len : ℕ) :
    ∃ gap, p.findGap len = .ok gap ∧ ∀ o, gap = some o ↔ IsLeast (p.gapsFrom 0 len) o :=
  findGapLoop_isLeast p len (BYTES + 2) 0 (by omega) (by omega)

/-! ### What an allocation writes -/

theorem alloc_cases (p : FixedPool N BYTES) (packetType : MessageType) (packet : Bytes)
    (queuedAt : ℕ) :
    (p.alloc packetType packet queuedAt = .ok (none, p) ∧
      (maxPacketSize < packet.length ∨ BYTES < packet.length ∨ p.freeSlot = none ∨
        p.findGap packet.length = .ok none)) ∨
    ∃ handle offset p', p.alloc packetType packet queuedAt = .ok (some handle, p') ∧
      packet.length ≤ maxPacketSize ∧ p.freeSlot = some handle ∧
      p.findGap packet.length = .ok (some offset) ∧
      p'.slots = p.slots.set handle ⟨none, offset, packet.length, queuedAt, packetType, true⟩ := by
  rw [alloc]
  by_cases hbig : maxPacketSize < packet.length ∨ BYTES < packet.length
  · rw [if_pos hbig]
    exact .inl ⟨rfl, or_assoc.mp (.inl hbig)⟩
  rw [if_neg hbig]
  cases hslot : p.freeSlot with
  | none => exact .inl ⟨rfl, by simp⟩
  | some handle =>
    obtain ⟨gap, hgap, hleast⟩ := p.findGap_isLeast packet.length
    simp only [hgap, ok_bind]
    cases gap with
    | none => exact .inl ⟨rfl, by simp⟩
    | some offset =>
      have hroom := ((hleast offset).mp rfl).1.2.1
      simp only [write, dif_pos hroom, ok_bind, pure_eq_ok]
      exact .inr ⟨handle, offset, _, rfl, by omega, rfl, rfl, rfl⟩

theorem freeSlot_none : p.freeSlot = none ↔ ∀ s ∈ p.slots, s.used := by
  rw [freeSlot, List.findIdx?_eq_none_iff]
  simp

theorem release_slots {handle : ℕ} (h : p.release handle = .ok p') :
    ∃ s : FixedSlot, p'.slots =
      p.slots.set handle { s with next := none, offset := 0, len := 0, used := false } := by
  obtain ⟨s, -, h⟩ := bind_ok_iff.mp h
  cases h
  exact ⟨s, rfl⟩

end FixedPool

/-! ### Sequences of calls -/

namespace Arena

variable {N BYTES : ℕ}

inductive Op
  | alloc (packetType : MessageType) (packet : Bytes) (queuedAt : ℕ)
  | free (handle : ℕ)

/-- The pool, and what was given to the allocation that produced each live handle. -/
structure State (N BYTES : ℕ) where
  pool : FixedPool N BYTES := {}
  live : ℕ → Option (MessageType × Bytes) := fun _ => none

def step (s : State N BYTES) : Op → Call (Option ℕ × State N BYTES)
  | .alloc packetType packet queuedAt => do
    let (handle, pool) ← s.pool.alloc packetType packet queuedAt
    match handle with
    | none => return (none, { s with pool := pool })
    | some handle =>
      return (some handle, ⟨pool, Function.update s.live handle (some (packetType, packet))⟩)
  | .free handle => do
    let pool ← s.pool.release handle
    return (none, ⟨pool, Function.update s.live handle none⟩)

def FreesLive (s : State N BYTES) : Op → Prop
  | .alloc .. => True
  | .free handle => (s.live handle).isSome

instance : ∀ (s : State N BYTES) (op : Op), Decidable (FreesLive s op)
  | _, .alloc .. => isTrue trivial
  | s, .free handle => inferInstanceAs (Decidable ((s.live handle).isSome = true))

namespace State

def LiveSlot (s : State N BYTES) (handle : ℕ) (slot : FixedSlot) : Prop :=
  (s.live handle).isSome ∧ s.pool.slots[handle]? = some slot

def range (offset len : ℕ) : Set ℕ := Set.Ico offset (offset + len)

def Fits (s : State N BYTES) (len offset : ℕ) : Prop :=
  offset + len ≤ BYTES ∧
    ∀ handle slot, s.LiveSlot handle slot → Disjoint (range offset len) (range slot.offset slot.len)

/-- Ranges lie in the arena and apart, live handles read back, and allocation is complete. -/
structure Sound (s : State N BYTES) : Prop where
  placed : ∀ handle v, s.live handle = some v →
    ∃ slot, s.LiveSlot handle slot ∧ slot.len = v.2.length
  in_arena : ∀ handle slot, s.LiveSlot handle slot → slot.offset + slot.len ≤ BYTES
  apart : ∀ handle handle' slot slot', handle ≠ handle' → s.LiveSlot handle slot →
    s.LiveSlot handle' slot' → Disjoint (range slot.offset slot.len) (range slot'.offset slot'.len)
  get : ∀ handle v, s.live handle = some v → s.pool.get handle = .ok v
  first_gap : ∀ len, ∃ gap, s.pool.findGap len = .ok gap ∧
    ∀ offset, gap = some offset ↔ IsLeast {o | s.Fits len o} offset
  alloc : ∀ packetType packet queuedAt, ∃ r s',
    step s (.alloc packetType packet queuedAt) = .ok (r, s') ∧
    (r = none ↔ maxPacketSize < packet.length ∨ BYTES < packet.length ∨
      (∀ handle < N, (s.live handle).isSome) ∨ ¬∃ offset, s.Fits packet.length offset) ∧
    (r = none → s' = s) ∧ ∀ handle, r = some handle → handle < N ∧ s.live handle = none

structure Invariant (s : State N BYTES) : Prop where
  wf : s.pool.WF
  anchored : ∀ slot ∈ s.pool.slots, slot.used → slot.len = 0 → slot.offset = 0
  live_eq : ∀ handle,
    s.live handle = (s.pool.view handle).map fun c => (c.value.packetType, c.value.data)

variable {s s' : State N BYTES} {handle len : ℕ} {slot : FixedSlot}

theorem start_invariant : ({} : State N BYTES).Invariant where
  wf := FixedPool.wf_new
  anchored := by
    intro slot hmem hused
    obtain ⟨-, rfl⟩ := List.mem_replicate.mp hmem
    cases hused
  live_eq handle := by
    have hview := PacketPool.view_new N BYTES .tiny handle
    change FixedPool.view _ _ = _ at hview
    rw [hview]
    rfl

namespace Invariant

theorem liveSlot_iff (h : s.Invariant) :
    s.LiveSlot handle slot ↔ s.pool.slots[handle]? = some slot ∧ slot.used := by
  rw [LiveSlot, h.live_eq, Option.isSome_map, and_comm, and_congr_right_iff]
  intro hslot
  rw [FixedPool.view, hslot, Option.bind_some]
  cases slot.used with
  | true => simp
  | false => simp

theorem fits_iff (h : s.Invariant) (hlen : 0 < len) (offset : ℕ) :
    s.Fits len offset ↔ offset ∈ s.pool.gapsFrom 0 len := by
  rw [Fits, FixedPool.gapsFrom, Set.mem_ofPred_eq, FixedPool.blocking_none_iff,
    and_iff_right (Nat.zero_le offset)]
  refine and_congr_right fun _ => ⟨fun hfits slot hmem hused => ?_, fun hgap handle slot hslot => ?_⟩
  · obtain ⟨handle, hslot⟩ := List.mem_iff_getElem?.mp hmem
    have hdisjoint := hfits handle slot (h.liveSlot_iff.mpr ⟨hslot, hused⟩)
    rw [range, range, Set.Ico_disjoint_Ico] at hdisjoint
    have hanchored := h.anchored slot hmem hused
    omega
  · obtain ⟨hslot, hused⟩ := h.liveSlot_iff.mp hslot
    have happart := hgap slot (List.mem_of_getElem? hslot) hused
    rw [range, range, Set.Ico_disjoint_Ico]
    omega

theorem first_gap (h : s.Invariant) (len : ℕ) :
    ∃ gap, s.pool.findGap len = .ok gap ∧
      ∀ offset, gap = some offset ↔ IsLeast {o | s.Fits len o} offset := by
  obtain ⟨gap, hgap, hleast⟩ := s.pool.findGap_isLeast len
  refine ⟨gap, hgap, fun offset => (hleast offset).trans ?_⟩
  rcases Nat.eq_zero_or_pos len with rfl | hlen
  · have hstart : IsLeast (s.pool.gapsFrom 0 0) 0 :=
      ⟨⟨le_rfl, Nat.zero_le _, FixedPool.blocking_none_iff.mpr fun _ _ _ => by omega⟩,
        fun o _ => Nat.zero_le o⟩
    have hfits : IsLeast {o | s.Fits 0 o} 0 := by
      refine ⟨⟨Nat.zero_le _, fun _ _ _ => ?_⟩, fun o _ => Nat.zero_le o⟩
      rw [range, Nat.add_zero, Set.Ico_self]
      exact disjoint_bot_left
    constructor
    · intro ho
      rwa [ho.unique hstart]
    · intro ho
      rwa [ho.unique hfits]
  · have hsets : {o | s.Fits len o} = s.pool.gapsFrom 0 len := Set.ext (h.fits_iff hlen)
    rw [hsets]

theorem findGap_none (h : s.Invariant) :
    s.pool.findGap len = .ok none ↔ ¬∃ offset, s.Fits len offset := by
  obtain ⟨gap, hgap, hleast⟩ := h.first_gap len
  rw [hgap]
  constructor
  · intro hnone hfits
    cases hnone
    exact nomatch (hleast _).mpr (isLeast_csInf (s := {o | s.Fits len o}) hfits)
  · intro hno
    cases gap with
    | none => rfl
    | some offset => exact absurd ⟨offset, ((hleast offset).mp rfl).1⟩ hno

theorem freeSlot_none (h : s.Invariant) :
    s.pool.freeSlot = none ↔ ∀ handle < N, (s.live handle).isSome := by
  rw [FixedPool.freeSlot_none]
  constructor
  · intro hused handle hlt
    rw [← s.pool.length_slots] at hlt
    have hslot := List.getElem?_eq_getElem hlt
    exact (h.liveSlot_iff.mpr ⟨hslot, hused _ (List.getElem_mem hlt)⟩).1
  · intro hlive slot hmem
    obtain ⟨handle, hslot⟩ := List.mem_iff_getElem?.mp hmem
    have hlt := (List.getElem?_eq_some_iff.mp hslot).1
    rw [s.pool.length_slots] at hlt
    exact (h.liveSlot_iff.mp ⟨hlive handle hlt, hslot⟩).2

theorem sound (h : s.Invariant) : s.Sound where
  placed handle v hv := by
    rw [h.live_eq, Option.map_eq_some_iff] at hv
    obtain ⟨c, hc, rfl⟩ := hv
    obtain ⟨slot, hslot, hused, rfl⟩ := FixedPool.view_eq_some.mp hc
    have hroom := h.wf.in_arena handle slot hslot hused
    refine ⟨slot, h.liveSlot_iff.mpr ⟨hslot, hused⟩, ?_⟩
    have hlength := Bytes.length_slice (a := slot.offset) (hroom.trans s.pool.length_arena.ge)
    rw [Nat.add_sub_cancel_left] at hlength
    exact hlength.symm
  in_arena handle slot hslot := by
    obtain ⟨hslot, hused⟩ := h.liveSlot_iff.mp hslot
    exact h.wf.in_arena handle slot hslot hused
  apart handle handle' slot slot' hne hslot hslot' := by
    obtain ⟨hslot, hused⟩ := h.liveSlot_iff.mp hslot
    obtain ⟨hslot', hused'⟩ := h.liveSlot_iff.mp hslot'
    have happart := h.wf.disjoint handle handle' slot slot' hne hslot hslot' hused hused'
    rw [FixedPool.Disjoint] at happart
    rw [range, range, Set.Ico_disjoint_Ico]
    omega
  get handle v hv := by
    rw [h.live_eq, Option.map_eq_some_iff] at hv
    obtain ⟨c, hc, rfl⟩ := hv
    exact FixedPool.get_spec h.wf hc
  first_gap := h.first_gap
  alloc packetType packet queuedAt := by
    have hwhy := s.pool.alloc_cases packetType packet queuedAt
    rw [h.freeSlot_none, h.findGap_none] at hwhy
    rcases hwhy with ⟨halloc, hwhy⟩ | ⟨handle, offset, p', halloc, hsize, hfree, hgap, -⟩
    · refine ⟨none, s, ?_, iff_of_true rfl hwhy, fun _ => rfl,
        fun _ h => by cases h⟩
      simp only [step, halloc, ok_bind, pure_eq_ok]
    · obtain ⟨old, hold, hunused⟩ := FixedPool.freeSlot_spec hfree
      have hlt := (List.getElem?_eq_some_iff.mp hold).1
      rw [s.pool.length_slots] at hlt
      have hdead : s.live handle = none := by
        rw [h.live_eq, FixedPool.view, hold]
        simp [hunused]
      obtain ⟨gap, hgap', hleast⟩ := h.first_gap packet.length
      cases hgap.symm.trans hgap'
      have hfits : s.Fits packet.length offset := ((hleast offset).mp rfl).1
      refine ⟨some handle, ⟨p', Function.update s.live handle (some (packetType, packet))⟩, ?_,
        iff_of_false (Option.some_ne_none _) ?_, fun h => (by cases h), ?_⟩
      · simp only [step, halloc, ok_bind, pure_eq_ok]
      · rintro (hbig | hbig | hfull | hno)
        · omega
        · have hroom := hfits.1
          omega
        · have hsome := hfull handle hlt
          rw [hdead] at hsome
          cases hsome
        · exact hno ⟨offset, hfits⟩
      · rintro handle' heq
        cases heq
        exact ⟨hlt, hdead⟩

end Invariant

theorem step_invariant {op : Op} {r : Option ℕ} (h : s.Invariant) (hlive : FreesLive s op)
    (hstep : step s op = .ok (r, s')) : s'.Invariant := by
  cases op with
  | alloc packetType packet queuedAt =>
    obtain ⟨r', p', halloc, hwf, hview⟩ := FixedPool.alloc_spec h.wf packetType packet queuedAt
    simp only [step, halloc, ok_bind, pure_eq_ok] at hstep
    cases r' with
    | none =>
      cases hstep
      obtain rfl : p' = s.pool := hview
      exact h
    | some handle =>
      cases hstep
      obtain ⟨-, hview, -⟩ := hview
      refine ⟨hwf, fun slot hmem hused hempty => ?_, fun k => ?_⟩
      · rcases s.pool.alloc_cases packetType packet queuedAt with
          ⟨hnone, -⟩ | ⟨handle', offset, p'', halloc', -, -, hgap, hslots⟩
        · cases hnone.symm.trans halloc
        · cases halloc'.symm.trans halloc
          rw [hslots] at hmem
          rcases List.mem_or_eq_of_mem_set hmem with hmem | rfl
          · exact h.anchored slot hmem hused hempty
          · -- the first gap for an empty packet is the start
            obtain ⟨gap, hgap', hleast⟩ := h.first_gap packet.length
            cases hgap.symm.trans hgap'
            have hstart : s.Fits packet.length 0 := by
              refine ⟨?_, fun _ _ _ => ?_⟩
              · change packet.length = 0 at hempty
                omega
              · change packet.length = 0 at hempty
                rw [range, hempty, Nat.add_zero, Set.Ico_self]
                exact disjoint_bot_left
            exact Nat.le_zero.mp (((hleast offset).mp rfl).2 hstart)
      · change Function.update s.live handle _ k = _
        rw [hview]
        by_cases hk : k = handle
        · subst hk
          simp only [Function.update_self, Option.map_some]
        · rw [Function.update_of_ne hk, Function.update_of_ne hk]
          exact h.live_eq k
  | free handle =>
    rw [FreesLive, h.live_eq, Option.isSome_map] at hlive
    obtain ⟨c, hc⟩ := Option.isSome_iff_exists.mp hlive
    obtain ⟨p', hfree, hwf, hview⟩ := FixedPool.release_spec h.wf hc
    simp only [step, hfree, ok_bind, pure_eq_ok] at hstep
    cases hstep
    refine ⟨hwf, fun slot hmem hused hempty => ?_, fun k => ?_⟩
    · obtain ⟨old, hslots⟩ := FixedPool.release_slots hfree
      rw [hslots] at hmem
      rcases List.mem_or_eq_of_mem_set hmem with hmem | rfl
      · exact h.anchored slot hmem hused hempty
      · cases hused
    · change Function.update s.live handle _ k = _
      rw [hview]
      by_cases hk : k = handle
      · subst hk
        simp only [Function.update_self, Option.map_none]
      · rw [Function.update_of_ne hk, Function.update_of_ne hk]
        exact h.live_eq k

theorem Invariant.step_ok {op : Op} (h : s.Invariant) (hlive : FreesLive s op) :
    ∃ r s', step s op = .ok (r, s') := by
  cases op with
  | alloc packetType packet queuedAt =>
    obtain ⟨r, s', hstep, -⟩ := h.sound.alloc packetType packet queuedAt
    exact ⟨r, s', hstep⟩
  | free handle =>
    rw [FreesLive, h.live_eq, Option.isSome_map] at hlive
    obtain ⟨c, hc⟩ := Option.isSome_iff_exists.mp hlive
    obtain ⟨p', hfree, -⟩ := FixedPool.release_spec h.wf hc
    exact ⟨none, ⟨p', Function.update s.live handle none⟩, by
      simp only [step, hfree, ok_bind, pure_eq_ok]⟩

end State

variable {ops : List Op}

theorem run_invariant {s : State N BYTES} (h : s.Invariant)
    (hlive : Machine.Along step FreesLive s ops) :
    ∃ rs s', Machine.run step s ops = .ok (rs, s') ∧ s'.Invariant := by
  induction ops generalizing s with
  | nil => exact ⟨[], s, rfl, h⟩
  | cons op ops ih =>
    obtain ⟨r, s₁, hstep⟩ := h.step_ok hlive.1
    have hrest := hlive.2
    rw [hstep] at hrest
    obtain ⟨rs, s', hrun, hinv⟩ := ih (State.step_invariant h hlive.1 hstep) hrest
    exact ⟨r :: rs, s', Machine.run_cons_ok.mpr ⟨r, s₁, rs, hstep, hrun, rfl⟩, hinv⟩

/-- The search for a gap ends on every table, and no sequence of calls that frees live handles only
panics or loses a packet. -/
theorem run_sound (N BYTES : ℕ) (ops : List Op) :
    (∀ (p : FixedPool N BYTES) (len : ℕ), ∃ gap, p.findGap len = .ok gap) ∧
      (Machine.Along step FreesLive ({} : State N BYTES) ops →
        ∃ rs s, Machine.run step ({} : State N BYTES) ops = .ok (rs, s) ∧ s.Sound) := by
  refine ⟨fun p len => ?_, fun hlive => ?_⟩
  · obtain ⟨gap, hgap, -⟩ := p.findGap_isLeast len
    exact ⟨gap, hgap⟩
  · obtain ⟨rs, s, hrun, hinv⟩ := run_invariant State.start_invariant hlive
    exact ⟨rs, s, hrun, hinv.sound⟩

theorem run_sound_reuse : ∃ rs s, Machine.run step ({} : State 2 4)
    [.alloc 4 [1, 2, 3] 0, .alloc 4 [] 0, .free 0, .alloc 4 [5, 6, 7, 8] 1] = .ok (rs, s) ∧
      s.Sound :=
  (run_sound 2 4 _).2 (by decide)

end Arena

end Tendrilix
