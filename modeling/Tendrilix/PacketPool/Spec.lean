import Tendrilix.PacketPool.Model

/-!
# What the pool operations do

`view` forgets the build: it maps each handle to its live cell. In both builds an operation on a
live handle returns, keeps the pool well formed and changes the view at that handle only.
-/

namespace Tendrilix

open Noise (MessageType)
open IntrusiveQueue

theorem sum_map_set {α : Type} (f : α → ℕ) {l : List α} {i : ℕ} {a b : α} (h : l[i]? = some a) :
    ((l.set i b).map f).sum + f a = (l.map f).sum + f b := by
  induction l generalizing i with
  | nil => exact nomatch h
  | cons x l ih =>
    cases i with
    | zero =>
      cases h
      simp only [List.set_cons_zero, List.map_cons, List.sum_cons]
      omega
    | succ i =>
      have hrest := ih (i := i) (by simpa using h)
      simp only [List.set_cons_succ, List.map_cons, List.sum_cons]
      omega

def Allocated {V : Type} (view view' : ℕ → Option PacketSlot) (pool pool' : V)
    (cell : PacketSlot) : Option ℕ → Prop
  | none => pool' = pool
  | some handle => view handle = none ∧ view' = Function.update view handle (some cell) ∧
      cell.value.data.length ≤ maxPacketSize

namespace HeapPool

variable {N BYTES : ℕ} {p : HeapPool N BYTES} {handle : ℕ} {s : PacketSlot}

def view (p : HeapPool N BYTES) (handle : ℕ) : Option PacketSlot :=
  p.slots[handle]?.join

def slotBytes (slot : Option PacketSlot) : ℕ := slot.elim 0 (·.value.data.length)

structure WF (p : HeapPool N BYTES) : Prop where
  length_le : p.slots.length ≤ N
  free_nodup : p.free.Nodup
  mem_free_iff : ∀ handle, handle ∈ p.free ↔ p.slots[handle]? = some none
  usedBytes_eq : p.usedBytes = (p.slots.map slotBytes).sum

theorem wf_new : ({} : HeapPool N BYTES).WF where
  length_le := Nat.zero_le N
  free_nodup := List.nodup_nil
  mem_free_iff := by simp
  usedBytes_eq := rfl

theorem view_eq_some : p.view handle = some s ↔ p.slots[handle]? = some (some s) := by
  rw [view, Option.join_eq_some_iff]

theorem lt_of_view (h : p.view handle = some s) : handle < p.slots.length :=
  (List.getElem?_eq_some_iff.mp (view_eq_some.mp h)).1

theorem slot_of_view (h : p.view handle = some s) : p.slot handle = .ok s := by
  rw [slot, view_eq_some.mp h]

theorem view_set {slots : List (Option PacketSlot)} {free : List ℕ} {used : ℕ}
    {x : Option PacketSlot} (h : handle < slots.length) :
    view (⟨slots.set handle x, free, used⟩ : HeapPool N BYTES) =
      Function.update (view (⟨slots, free, used⟩ : HeapPool N BYTES)) handle x := by
  funext k
  by_cases hk : k = handle
  · subst hk
    simp [view, h]
  · have hne : handle ≠ k := fun heq => hk heq.symm
    simp [view, hne, hk]

theorem setSlot_wf (hp : p.WF) {t : PacketSlot} (h : p.view handle = some s)
    (hdata : t.value.data.length = s.value.data.length) : (p.setSlot handle t).WF where
  length_le := by
    rw [setSlot, List.length_set]
    exact hp.length_le
  free_nodup := hp.free_nodup
  mem_free_iff := by
    intro k
    have hget := view_eq_some.mp h
    change k ∈ p.free ↔ (p.slots.set handle (some t))[k]? = some none
    rw [hp.mem_free_iff]
    by_cases hk : handle = k
    · subst hk
      rw [hget, List.getElem?_set_self (lt_of_view h)]
      simp
    · rw [List.getElem?_set_ne hk]
  usedBytes_eq := by
    have hsum := sum_map_set slotBytes (b := some t) (view_eq_some.mp h)
    have hused := hp.usedBytes_eq
    simp only [slotBytes, Option.elim_some, hdata] at hsum
    change p.usedBytes = ((p.slots.set handle (some t)).map slotBytes).sum
    omega

theorem view_setSlot (h : p.view handle = some s) (t : PacketSlot) :
    (p.setSlot handle t).view = Function.update p.view handle (some t) :=
  view_set (lt_of_view h)

theorem release_spec (hp : p.WF) (h : p.view handle = some s) :
    ∃ p', p.release handle = .ok p' ∧ p'.WF ∧ p'.view = Function.update p.view handle none := by
  have hget := view_eq_some.mp h
  have hlt := lt_of_view h
  have hsum := sum_map_set slotBytes (b := none) hget
  have hused := hp.usedBytes_eq
  simp only [slotBytes, Option.elim_some, Option.elim_none] at hsum
  have hroom : ¬p.usedBytes < s.value.data.length := by omega
  simp only [release, hget, if_neg hroom]
  refine ⟨_, rfl, ⟨?_, ?_, ?_, ?_⟩, view_set hlt⟩
  · rw [List.length_set]
    exact hp.length_le
  · refine List.nodup_cons.mpr ⟨fun hmem => ?_, hp.free_nodup⟩
    rw [hp.mem_free_iff, hget] at hmem
    exact nomatch hmem
  · intro k
    rw [List.mem_cons, hp.mem_free_iff]
    by_cases hk : handle = k
    · subst hk
      simp [hlt]
    · have hne : k ≠ handle := fun heq => hk heq.symm
      simp [hk, hne]
  · change p.usedBytes - s.value.data.length = ((p.slots.set handle none).map slotBytes).sum
    omega

theorem view_append {free : List ℕ} {used : ℕ} (slots : List (Option PacketSlot)) :
    view (⟨slots ++ [some s], free, used⟩ : HeapPool N BYTES) =
      Function.update (view (⟨slots, free, used⟩ : HeapPool N BYTES)) slots.length (some s) := by
  funext k
  by_cases hk : k = slots.length
  · subst hk
    simp [view]
  · rw [Function.update_of_ne hk]
    change (slots ++ [some s])[k]?.join = slots[k]?.join
    rcases Nat.lt_or_ge k slots.length with hlt | hge
    · rw [List.getElem?_append_left hlt]
    · have hout : (slots ++ [some s]).length ≤ k := by
        rw [List.length_append, List.length_singleton]
        omega
      rw [List.getElem?_eq_none hout, List.getElem?_eq_none hge]

theorem alloc_spec (hp : p.WF) (packetType : MessageType) (packet : Bytes) (queuedAt : ℕ) :
    ∃ r p', p.alloc packetType packet queuedAt = .ok (r, p') ∧ p'.WF ∧
      Allocated p.view p'.view p p' ⟨none, queuedAt, packetType, packet⟩ r := by
  rw [alloc]
  by_cases hbig : maxPacketSize < packet.length ∨ BYTES < p.usedBytes + packet.length
  · rw [if_pos hbig]
    exact ⟨none, p, rfl, hp, rfl⟩
  have hsize : packet.length ≤ maxPacketSize := by omega
  rw [if_neg hbig]
  obtain ⟨slots, free, used⟩ := p
  cases free with
  | nil =>
    by_cases hroom : slots.length < N
    · simp only [freeSlot, if_pos hroom, if_true]
      refine ⟨_, _, rfl, ⟨?_, List.nodup_nil, ?_, ?_⟩, ?_, view_append slots, hsize⟩
      · rw [List.length_append]
        exact hroom
      · intro k
        have hnone := hp.mem_free_iff k
        simp only [List.not_mem_nil, false_iff] at hnone ⊢
        rw [List.getElem?_append]
        split
        · exact hnone
        · rw [List.getElem?_singleton]
          split <;> simp
      · have hused := hp.usedBytes_eq
        simp only at hused
        simp [slotBytes, hused]
      · simp [view]
    · simp only [freeSlot, if_neg hroom]
      exact ⟨none, _, rfl, hp, rfl⟩
  | cons handle free =>
    have hget : slots[handle]? = some none := (hp.mem_free_iff handle).mp (by simp)
    have hlt : handle < slots.length := (List.getElem?_eq_some_iff.mp hget).1
    have hnodup := List.nodup_cons.mp hp.free_nodup
    simp only [freeSlot, if_neg hlt.ne, if_pos hlt]
    refine ⟨_, _, rfl, ⟨?_, hnodup.2, ?_, ?_⟩, ?_, view_set hlt, hsize⟩
    · rw [List.length_set]
      exact hp.length_le
    · intro k
      have hiff := hp.mem_free_iff k
      simp only [List.mem_cons] at hiff ⊢
      by_cases hk : handle = k
      · subst hk
        simp [hnodup.1, hlt]
      · have hne : k ≠ handle := fun heq => hk heq.symm
        rw [List.getElem?_set_ne hk, ← hiff]
        simp [hne]
    · have hsum := sum_map_set slotBytes (b := some ⟨none, queuedAt, packetType, packet⟩) hget
      have hused := hp.usedBytes_eq
      simp only [slotBytes, Option.elim_some, Option.elim_none] at hsum hused ⊢
      omega
    · simp [view, hget]

end HeapPool

namespace FixedPool

variable {N BYTES : ℕ} {p : FixedPool N BYTES} {handle : ℕ} {s : FixedSlot} {c : PacketSlot}

def cell (arena : Bytes) (s : FixedSlot) : PacketSlot :=
  ⟨s.next, s.queuedAt, s.packetType, Bytes.slice arena s.offset (s.offset + s.len)⟩

def view (p : FixedPool N BYTES) (handle : ℕ) : Option PacketSlot :=
  p.slots[handle]?.bind fun s => if s.used then some (cell p.arena s) else none

def Disjoint (s t : FixedSlot) : Prop := s.offset + s.len ≤ t.offset ∨ t.offset + t.len ≤ s.offset

structure WF (p : FixedPool N BYTES) : Prop where
  in_arena : ∀ (i : ℕ) (s : FixedSlot), p.slots[i]? = some s → s.used → s.offset + s.len ≤ BYTES
  disjoint : ∀ (i j : ℕ) (s t : FixedSlot), i ≠ j → p.slots[i]? = some s → p.slots[j]? = some t →
    s.used → t.used → Disjoint s t

theorem wf_new : ({} : FixedPool N BYTES).WF where
  in_arena := by
    intro i s hs hused
    obtain ⟨-, rfl⟩ := List.mem_replicate.mp (List.mem_of_getElem? hs)
    exact nomatch hused
  disjoint := by
    intro i j s t _ hs _ hused
    obtain ⟨-, rfl⟩ := List.mem_replicate.mp (List.mem_of_getElem? hs)
    exact nomatch hused

theorem view_eq_some : p.view handle = some c ↔
    ∃ s, p.slots[handle]? = some s ∧ s.used ∧ cell p.arena s = c := by
  rw [view, Option.bind_eq_some_iff]
  refine exists_congr fun s => and_congr_right fun _ => ?_
  by_cases hused : s.used = true
  · simp [hused]
  · simp [hused]

theorem slot_eq (h : p.slots[handle]? = some s) : p.slot handle = .ok s := by
  rw [slot, h]

theorem view_setSlot (h : p.slots[handle]? = some s) (t : FixedSlot) :
    (p.setSlot handle t).view =
      Function.update p.view handle (if t.used then some (cell p.arena t) else none) := by
  have hlt := (List.getElem?_eq_some_iff.mp h).1
  funext k
  by_cases hk : k = handle
  · subst hk
    simp [view, setSlot, hlt]
  · have hne : handle ≠ k := fun heq => hk heq.symm
    simp [view, setSlot, hne, hk]

theorem setSlot_wf (hp : p.WF) (h : p.slots[handle]? = some s) {t : FixedSlot}
    (ht : t.used → s.used ∧ t.offset = s.offset ∧ t.len = s.len) : (p.setSlot handle t).WF := by
  have hlt := (List.getElem?_eq_some_iff.mp h).1
  have hold : ∀ (i : ℕ) (u : FixedSlot), (p.setSlot handle t).slots[i]? = some u → u.used →
      ∃ v, p.slots[i]? = some v ∧ v.used ∧ u.offset = v.offset ∧ u.len = v.len := by
    intro i u hu hused
    by_cases hi : handle = i
    · subst hi
      rw [setSlot, List.getElem?_set_self hlt] at hu
      cases hu
      exact ⟨s, h, ht hused⟩
    · rw [setSlot, List.getElem?_set_ne hi] at hu
      exact ⟨u, hu, hused, rfl, rfl⟩
  constructor
  · intro i u hu hused
    obtain ⟨v, hv, hvused, hoff, hlen⟩ := hold i u hu hused
    rw [hoff, hlen]
    exact hp.in_arena i v hv hvused
  · intro i j u u' hij hu hu' hused hused'
    obtain ⟨v, hv, hvused, hoff, hlen⟩ := hold i u hu hused
    obtain ⟨v', hv', hvused', hoff', hlen'⟩ := hold j u' hu' hused'
    rw [Disjoint, hoff, hlen, hoff', hlen']
    exact hp.disjoint i j v v' hij hv hv' hvused hvused'

theorem release_spec (hp : p.WF) (h : p.view handle = some c) :
    ∃ p', p.release handle = .ok p' ∧ p'.WF ∧ p'.view = Function.update p.view handle none := by
  obtain ⟨s, hs, -, -⟩ := view_eq_some.mp h
  rw [release, slot_eq hs, ok_bind]
  refine ⟨_, rfl, setSlot_wf hp hs (nomatch ·), ?_⟩
  rw [view_setSlot hs]
  rfl

theorem get_spec (hp : p.WF) (h : p.view handle = some c) :
    p.get handle = .ok (c.value.packetType, c.value.data) := by
  obtain ⟨s, hs, hused, rfl⟩ := view_eq_some.mp h
  rw [get, slot_eq hs, ok_bind, if_pos (hp.in_arena handle s hs hused)]
  rfl

theorem blocking_none {start len : ℕ} (h : p.blocking start len = none) {i : ℕ}
    (hs : p.slots[i]? = some s) (hused : s.used) :
    s.offset + s.len ≤ start ∨ start + len ≤ s.offset := by
  rw [blocking, List.find?_eq_none] at h
  have hno := h s (List.mem_filter.mpr ⟨List.mem_of_getElem? hs, hused⟩)
  simp only [Bool.and_eq_true, decide_eq_true_eq] at hno
  omega

theorem blocking_some (hp : p.WF) {start len : ℕ} (h : p.blocking start len = some s) :
    start < s.offset + s.len ∧ s.offset + s.len ≤ BYTES := by
  have hmem := List.mem_filter.mp (List.mem_of_find?_eq_some h)
  have hhit := List.find?_some h
  simp only [Bool.and_eq_true, decide_eq_true_eq] at hhit
  obtain ⟨i, hi⟩ := List.mem_iff_getElem?.mp hmem.1
  exact ⟨hhit.1, hp.in_arena i s hi hmem.2⟩

theorem findGapLoop_spec (hp : p.WF) (len fuel start : ℕ) (hfuel : BYTES < start + fuel)
    (hpos : 0 < fuel) :
    ∃ r, p.findGapLoop len fuel start = .ok r ∧
      ∀ offset, r = some offset → offset + len ≤ BYTES ∧ p.blocking offset len = none := by
  induction fuel generalizing start with
  | zero => exact absurd hpos (Nat.lt_irrefl 0)
  | succ fuel ih =>
    rw [findGapLoop]
    by_cases hend : BYTES < start + len
    · rw [if_pos hend]
      exact ⟨none, rfl, fun offset hr => nomatch hr⟩
    rw [if_neg hend]
    cases hblock : p.blocking start len with
    | none =>
      refine ⟨some start, rfl, fun offset hr => ?_⟩
      cases hr
      exact ⟨Nat.le_of_not_lt hend, hblock⟩
    | some s =>
      have hmove := blocking_some hp hblock
      exact ih _ (by omega) (by omega)

theorem freeSlot_spec (h : p.freeSlot = some handle) :
    ∃ s, p.slots[handle]? = some s ∧ s.used = false := by
  obtain ⟨hlt, hunused, -⟩ := List.findIdx?_eq_some_iff_getElem.mp h
  refine ⟨p.slots[handle], List.getElem?_eq_getElem hlt, ?_⟩
  simpa using hunused

theorem cell_overwrite {offset : ℕ} {packet : Bytes} (hroom : offset + packet.length ≤ BYTES)
    (hgap : s.offset + s.len ≤ offset ∨ offset + packet.length ≤ s.offset) :
    cell (Bytes.overwrite p.arena offset packet) s = cell p.arena s := by
  have hbound : offset + packet.length ≤ p.arena.length := by rwa [p.length_arena]
  rw [cell, cell]
  rcases hgap with hbefore | hafter
  · rw [Bytes.slice_overwrite_of_le hbound hbefore]
  · rw [Bytes.slice_overwrite_of_ge hbound hafter]

theorem alloc_spec (hp : p.WF) (packetType : MessageType) (packet : Bytes) (queuedAt : ℕ) :
    ∃ r p', p.alloc packetType packet queuedAt = .ok (r, p') ∧ p'.WF ∧
      Allocated p.view p'.view p p' ⟨none, queuedAt, packetType, packet⟩ r := by
  rw [alloc]
  by_cases hbig : maxPacketSize < packet.length ∨ BYTES < packet.length
  · rw [if_pos hbig]
    exact ⟨none, p, rfl, hp, rfl⟩
  have hsize : packet.length ≤ maxPacketSize := by omega
  rw [if_neg hbig]
  cases hslot : p.freeSlot with
  | none => exact ⟨none, p, rfl, hp, rfl⟩
  | some handle =>
    obtain ⟨old, hold, hunused⟩ := freeSlot_spec hslot
    have hlt := (List.getElem?_eq_some_iff.mp hold).1
    obtain ⟨gap, hgap, hfree⟩ := findGapLoop_spec hp packet.length (BYTES + 2) 0 (by omega)
      (by omega)
    simp only [findGap, hgap, ok_bind]
    cases gap with
    | none => exact ⟨none, p, rfl, hp, rfl⟩
    | some offset =>
      obtain ⟨hroom, hblock⟩ := hfree offset rfl
      have hbound : offset + packet.length ≤ p.arena.length := by rwa [p.length_arena]
      simp only [write, dif_pos hroom, ok_bind, pure_eq_ok]
      refine ⟨_, _, rfl, ⟨?_, ?_⟩, ?_, ?_, hsize⟩
      · intro i u hu hused
        by_cases hi : handle = i
        · subst hi
          rw [setSlot, List.getElem?_set_self hlt] at hu
          cases hu
          exact hroom
        · rw [setSlot, List.getElem?_set_ne hi] at hu
          exact hp.in_arena i u hu hused
      · have hnew : ∀ (k : ℕ) (u : FixedSlot), p.slots[k]? = some u → u.used →
            u.offset + u.len ≤ offset ∨ offset + packet.length ≤ u.offset :=
          fun k u hu hused => blocking_none hblock hu hused
        intro i j u u' hij hu hu' hused hused'
        by_cases hi : handle = i
        · subst hi
          rw [setSlot, List.getElem?_set_self hlt] at hu
          rw [setSlot, List.getElem?_set_ne hij] at hu'
          cases hu
          exact (hnew j u' hu' hused').symm
        · by_cases hj : handle = j
          · subst hj
            rw [setSlot, List.getElem?_set_ne hi] at hu
            rw [setSlot, List.getElem?_set_self hlt] at hu'
            cases hu'
            exact hnew i u hu hused
          · rw [setSlot, List.getElem?_set_ne hi] at hu
            rw [setSlot, List.getElem?_set_ne hj] at hu'
            exact hp.disjoint i j u u' hij hu hu' hused hused'
      · simp [view, hold, hunused]
      · funext k
        by_cases hk : k = handle
        · subst hk
          simp [view, setSlot, hlt, cell, Bytes.slice_overwrite_self hbound]
        · have hne : handle ≠ k := fun heq => hk heq.symm
          rw [Function.update_of_ne hk]
          simp only [view, setSlot, List.getElem?_set_ne hne]
          cases hu : p.slots[k]? with
          | none => rfl
          | some u =>
            by_cases hused : u.used = true
            · simp [hused, cell_overwrite hroom (blocking_none hblock hu hused)]
            · simp [hused]

end FixedPool

namespace PacketPool

variable {N BYTES : ℕ} {p : PacketPool N BYTES} {handle : ℕ} {c : PacketSlot}

def view : PacketPool N BYTES → ℕ → Option PacketSlot
  | .heap p => p.view
  | .fixed p => p.view

def WF : PacketPool N BYTES → Prop
  | .heap p => p.WF
  | .fixed p => p.WF

theorem wf_new (N BYTES : ℕ) (profile : Profile) : (new N BYTES profile).WF := by
  cases profile with
  | alloc => exact HeapPool.wf_new
  | _ => exact FixedPool.wf_new

theorem view_new (N BYTES : ℕ) (profile : Profile) (handle : ℕ) :
    (new N BYTES profile).view handle = none := by
  have hfixed : ({} : FixedPool N BYTES).view handle = none := by
    cases hs : (List.replicate N ({} : FixedSlot))[handle]? with
    | none => simp [FixedPool.view, hs]
    | some s =>
      obtain ⟨-, rfl⟩ := List.mem_replicate.mp (List.mem_of_getElem? hs)
      simp [FixedPool.view, hs]
  cases profile with
  | alloc => rfl
  | _ => exact hfixed

theorem lt_of_view (hp : p.WF) (h : p.view handle = some c) : handle < N := by
  cases p with
  | heap p => exact (HeapPool.lt_of_view h).trans_le hp.length_le
  | fixed p =>
    obtain ⟨s, hs, -⟩ := FixedPool.view_eq_some.mp h
    have hlt := (List.getElem?_eq_some_iff.mp hs).1
    rwa [p.length_slots] at hlt

theorem alloc_spec (hp : p.WF) (packetType : MessageType) (packet : Bytes) (queuedAt : ℕ) :
    ∃ r p', p.alloc packetType packet queuedAt = .ok (r, p') ∧ p'.WF ∧
      Allocated p.view p'.view p p' ⟨none, queuedAt, packetType, packet⟩ r := by
  cases p with
  | heap p =>
    obtain ⟨r, p', hcall, hwf, hres⟩ := HeapPool.alloc_spec hp packetType packet queuedAt
    refine ⟨r, .heap p', by simp only [alloc, hcall, ok_bind, pure_eq_ok], hwf, ?_⟩
    cases r with
    | none => exact congrArg PacketPool.heap hres
    | some handle => exact hres
  | fixed p =>
    obtain ⟨r, p', hcall, hwf, hres⟩ := FixedPool.alloc_spec hp packetType packet queuedAt
    refine ⟨r, .fixed p', by simp only [alloc, hcall, ok_bind, pure_eq_ok], hwf, ?_⟩
    cases r with
    | none => exact congrArg PacketPool.fixed hres
    | some handle => exact hres

theorem next_spec (h : p.view handle = some c) : p.next handle = .ok c.next := by
  cases p with
  | heap p => simp only [next, HeapPool.slot_of_view h, ok_bind, pure_eq_ok]
  | fixed p =>
    obtain ⟨s, hs, -, rfl⟩ := FixedPool.view_eq_some.mp h
    simp only [next, FixedPool.slot_eq hs, ok_bind, pure_eq_ok]
    rfl

theorem queuedAt_spec (h : p.view handle = some c) : p.queuedAt handle = .ok c.value.queuedAt := by
  cases p with
  | heap p => simp only [queuedAt, HeapPool.slot_of_view h, ok_bind, pure_eq_ok]
  | fixed p =>
    obtain ⟨s, hs, -, rfl⟩ := FixedPool.view_eq_some.mp h
    simp only [queuedAt, FixedPool.slot_eq hs, ok_bind, pure_eq_ok]
    rfl

theorem get_spec (hp : p.WF) (h : p.view handle = some c) :
    p.get handle = .ok (c.value.packetType, c.value.data) := by
  cases p with
  | heap p => simp only [get, HeapPool.slot_of_view h, ok_bind, pure_eq_ok]
  | fixed p => exact FixedPool.get_spec hp h

theorem setNext_spec (hp : p.WF) (h : p.view handle = some c) (next : Option ℕ) :
    ∃ p', p.setNext handle next = .ok p' ∧ p'.WF ∧
      p'.view = Function.update p.view handle (some ⟨next, c.value⟩) := by
  cases p with
  | heap p =>
    refine ⟨.heap (p.setSlot handle { c with next := next }), ?_, ?_, ?_⟩
    · simp only [setNext, HeapPool.slot_of_view h, ok_bind, pure_eq_ok]
    · exact HeapPool.setSlot_wf hp h rfl
    · exact HeapPool.view_setSlot h _
  | fixed p =>
    obtain ⟨s, hs, hused, rfl⟩ := FixedPool.view_eq_some.mp h
    refine ⟨.fixed (p.setSlot handle { s with next := next }), ?_, ?_, ?_⟩
    · simp only [setNext, FixedPool.slot_eq hs, ok_bind, pure_eq_ok]
    · exact FixedPool.setSlot_wf hp hs fun _ => ⟨hused, rfl, rfl⟩
    · refine (FixedPool.view_setSlot hs _).trans ?_
      rw [if_pos hused]
      rfl

theorem takeNext_spec (hp : p.WF) (h : p.view handle = some c) :
    ∃ p', p.takeNext handle = .ok (c.next, p') ∧ p'.WF ∧
      p'.view = Function.update p.view handle (some ⟨none, c.value⟩) := by
  obtain ⟨p', hset, hwf, hview⟩ := setNext_spec hp h none
  refine ⟨p', ?_, hwf, hview⟩
  simp only [takeNext, next_spec h, hset, ok_bind, pure_eq_ok]

theorem free_spec (hp : p.WF) (h : p.view handle = some c) :
    ∃ p', p.free handle = .ok p' ∧ p'.WF ∧ p'.view = Function.update p.view handle none := by
  cases p with
  | heap p =>
    obtain ⟨p', hcall, hwf, hview⟩ := HeapPool.release_spec hp h
    exact ⟨.heap p', by simp only [free, hcall, ok_bind, pure_eq_ok], hwf, hview⟩
  | fixed p =>
    obtain ⟨p', hcall, hwf, hview⟩ := FixedPool.release_spec hp h
    exact ⟨.fixed p', by simp only [free, hcall, ok_bind, pure_eq_ok], hwf, hview⟩

end PacketPool

end Tendrilix
