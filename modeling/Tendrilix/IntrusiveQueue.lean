import Mathlib.Tactic

/-!
# Intrusive queues in a store of cells

A store maps handles to cells, and a cell carries the handle of its successor. `Segment` follows
the links from one handle to another. A queue that keeps the handles of its two ends and its
length `Holds` a list of items when its chain of cells reads back as that list.
-/

namespace Tendrilix.IntrusiveQueue

variable {H α : Type}

structure Cell (H α : Type) where
  next : Option H
  value : α
  deriving DecidableEq

structure Queue (H : Type) where
  head : Option H := none
  tail : Option H := none
  len : ℕ := 0
  deriving DecidableEq

abbrev Store (H α : Type) := H → Option (Cell H α)

inductive Segment (store : Store H α) : Option H → List (H × α) → Option H → Prop
  | nil (x : Option H) : Segment store x [] x
  | cons {h : H} {c : Cell H α} {items : List (H × α)} {last : Option H}
      (cell : store h = some c) (rest : Segment store c.next items last) :
      Segment store (some h) ((h, c.value) :: items) last

def handles (items : List (H × α)) : List H := items.map Prod.fst

@[simp] theorem handles_nil : handles ([] : List (H × α)) = [] := rfl

@[simp] theorem handles_cons (h : H) (a : α) (items : List (H × α)) :
    handles ((h, a) :: items) = h :: handles items := rfl

@[simp] theorem handles_append (xs ys : List (H × α)) :
    handles (xs ++ ys) = handles xs ++ handles ys := List.map_append

variable {store store' : Store H α} {first mid last : Option H} {items xs ys : List (H × α)}

namespace Segment

theorem append (h : Segment store first xs mid) (h' : Segment store mid ys last) :
    Segment store first (xs ++ ys) last := by
  induction h with
  | nil => exact h'
  | cons cell rest ih => exact .cons cell (ih h')

theorem split (h : Segment store first (xs ++ ys) last) :
    ∃ mid, Segment store first xs mid ∧ Segment store mid ys last := by
  induction xs generalizing first with
  | nil => exact ⟨first, .nil first, h⟩
  | cons x xs ih =>
    cases h with
    | cons cell rest =>
      obtain ⟨mid, hxs, hys⟩ := ih rest
      exact ⟨mid, .cons cell hxs, hys⟩

theorem live (h : Segment store first items last) {x : H} {a : α} (hx : (x, a) ∈ items) :
    ∃ c, store x = some c ∧ c.value = a := by
  induction h with
  | nil => exact absurd hx List.not_mem_nil
  | cons cell rest ih =>
    rcases List.mem_cons.mp hx with heq | hrest
    · cases heq
      exact ⟨_, cell, rfl⟩
    · exact ih hrest

theorem frame (h : Segment store first items last)
    (hsame : ∀ x ∈ handles items, store' x = store x) : Segment store' first items last := by
  induction h with
  | nil => exact .nil _
  | cons cell rest ih =>
    rename_i x c items last
    refine .cons ?_ (ih fun y hy => hsame y (by simp [hy]))
    rw [hsame x (by simp), cell]

theorem eq_nil (h : Segment store none items last) : items = [] := by
  cases h
  rfl

theorem last_eq_of_nil (h : Segment store first [] last) : last = first := by
  cases h
  rfl

theorem head_eq (h : Segment store first items none) : first = (handles items).head? := by
  cases items with
  | nil => exact (last_eq_of_nil h).symm
  | cons x items =>
    cases h
    rfl

theorem unique {items' : List (H × α)} (h : Segment store first items none)
    (h' : Segment store first items' none) : items = items' := by
  induction items generalizing first items' with
  | nil =>
    cases h
    exact h'.eq_nil.symm
  | cons x items ih =>
    cases h with
    | cons cell rest =>
      cases h' with
      | cons cell' rest' =>
        cases cell.symm.trans cell'
        rw [ih rest rest']

variable [DecidableEq H]

theorem update_of_not_mem (h : Segment store first items last) {x : H}
    {c : Option (Cell H α)} (hx : x ∉ handles items) :
    Segment (Function.update store x c) first items last := by
  apply h.frame
  intro y hy
  rw [Function.update_of_ne]
  intro heq
  exact hx (heq ▸ hy)

theorem relink {x : H} {c : Cell H α} (h : Segment store first (items ++ [(x, c.value)]) last)
    (hx : x ∉ handles items) (target : Option H) :
    Segment (Function.update store x (some ⟨target, c.value⟩)) first
      (items ++ [(x, c.value)]) target := by
  obtain ⟨mid, hitems, hlast⟩ := h.split
  refine (hitems.update_of_not_mem hx).append ?_
  generalize hv : c.value = v at hlast ⊢
  cases hlast with
  | cons cell rest =>
    exact .cons (c := ⟨target, _⟩) (Function.update_self ..) (.nil target)

end Segment

structure Holds (store : Store H α) (q : Queue H) (items : List (H × α)) : Prop where
  chain : Segment store q.head items none
  tail_eq : q.tail = (handles items).getLast?
  len_eq : q.len = items.length
  nodup : (handles items).Nodup

namespace Holds

variable {q : Queue H}

theorem empty (store : Store H α) : Holds store {} [] where
  chain := .nil none
  tail_eq := rfl
  len_eq := rfl
  nodup := List.nodup_nil

theorem frame (h : Holds store q items) (hsame : ∀ x ∈ handles items, store' x = store x) :
    Holds store' q items where
  chain := h.chain.frame hsame
  tail_eq := h.tail_eq
  len_eq := h.len_eq
  nodup := h.nodup

theorem live (h : Holds store q items) {x : H} {a : α} (hx : (x, a) ∈ items) :
    ∃ c, store x = some c ∧ c.value = a := h.chain.live hx

theorem unique {items' : List (H × α)} (h : Holds store q items) (h' : Holds store q items') :
    items = items' := h.chain.unique h'.chain

theorem ne_none (h : Holds store q items) {x : H} (hx : x ∈ handles items) : store x ≠ none := by
  obtain ⟨⟨y, a⟩, hmem, rfl⟩ := List.mem_map.mp hx
  obtain ⟨c, hc, -⟩ := h.live hmem
  rw [hc]
  exact Option.some_ne_none c

theorem head_eq (h : Holds store q items) : q.head = (handles items).head? := h.chain.head_eq

theorem cons_split (xs : List (H × α)) {x : H} {a : α} (h : Holds store q (xs ++ (x, a) :: ys)) :
    ∃ next, store x = some ⟨next, a⟩ ∧ Segment store q.head xs (some x) ∧
      Segment store next ys none := by
  obtain ⟨mid, hxs, hys⟩ := h.chain.split
  cases hys with
  | cons cell rest => exact ⟨_, cell, hxs, rest⟩

theorem not_mem (xs : List (H × α)) {x : H} {a : α} (h : Holds store q (xs ++ (x, a) :: ys)) :
    x ∉ handles xs ∧ x ∉ handles ys ∧ (handles xs ++ handles ys).Nodup := by
  have hnodup := h.nodup
  rw [handles_append, handles_cons, List.nodup_middle, List.nodup_cons, List.mem_append,
    not_or] at hnodup
  exact ⟨hnodup.1.1, hnodup.1.2, hnodup.2⟩

variable [DecidableEq H]

theorem pop {x : H} {a : α} (h : Holds store q ((x, a) :: items)) {next : Option H}
    (hx : store x = some ⟨next, a⟩) (c : Option (Cell H α)) :
    Holds (Function.update store x c)
      { head := next
        tail := if next.isNone then none else q.tail
        len := q.len - 1 } items := by
  obtain ⟨-, hnot, hnodup⟩ := not_mem [] h
  obtain ⟨next', hcell, -, hrest⟩ := cons_split [] h
  cases hx.symm.trans hcell
  refine ⟨hrest.update_of_not_mem hnot, ?_, ?_, hnodup⟩
  · have htail := h.tail_eq
    have hhead := hrest.head_eq
    cases items with
    | nil =>
      rw [hhead]
      rfl
    | cons y items =>
      rw [hhead, htail]
      rfl
  · have hlen := h.len_eq
    rw [List.length_cons] at hlen
    change q.len - 1 = items.length
    omega

theorem pushFront {x : H} {a : α} (h : Holds store q items) (hx : x ∉ handles items) :
    Holds (Function.update store x (some ⟨q.head, a⟩))
      { head := some x
        tail := q.tail.or (some x)
        len := q.len + 1 } ((x, a) :: items) where
  chain := .cons (Function.update_self ..) (h.chain.update_of_not_mem hx)
  tail_eq := by
    change q.tail.or (some x) = _
    rw [h.tail_eq, handles_cons, List.getLast?_cons]
    cases (handles items).getLast? <;> rfl
  len_eq := congrArg (· + 1) h.len_eq
  nodup := List.nodup_cons.mpr ⟨hx, h.nodup⟩

theorem pushBack_empty {x : H} {a : α} (h : Holds store q []) :
    Holds (Function.update store x (some ⟨none, a⟩))
      { head := some x
        tail := some x
        len := q.len + 1 } [(x, a)] where
  chain := .cons (Function.update_self ..) (.nil none)
  tail_eq := rfl
  len_eq := congrArg (· + 1) h.len_eq
  nodup := List.nodup_singleton x

theorem pushBack {p x : H} {u a : α} (h : Holds store q (xs ++ [(p, u)]))
    (hx : x ∉ handles (xs ++ [(p, u)])) :
    Holds (Function.update (Function.update store x (some ⟨none, a⟩)) p (some ⟨some x, u⟩))
      { q with tail := some x, len := q.len + 1 } (xs ++ [(p, u)] ++ [(x, a)]) := by
  obtain ⟨hp, -, -⟩ := h.not_mem xs
  have hne : x ≠ p := by
    intro heq
    exact hx (by simp [heq])
  have hchain : Segment (Function.update store x (some ⟨none, a⟩)) q.head (xs ++ [(p, u)]) none :=
    h.chain.update_of_not_mem hx
  have hcell : Function.update (Function.update store x (some ⟨none, a⟩)) p (some ⟨some x, u⟩) x =
      some ⟨none, a⟩ := by
    rw [Function.update_of_ne hne, Function.update_self]
  refine ⟨(hchain.relink (c := ⟨none, u⟩) hp (some x)).append (.cons hcell (.nil none)), ?_, ?_, ?_⟩
  · rw [handles_append, handles_cons, handles_nil, List.getLast?_concat]
  · rw [List.length_append, ← h.len_eq]
    rfl
  · rw [handles_append, List.nodup_append]
    refine ⟨h.nodup, List.nodup_singleton x, fun y hy z hz heq => ?_⟩
    rw [handles_cons, handles_nil, List.mem_singleton] at hz
    exact hx (hz ▸ heq ▸ hy)

theorem tail_remove (xs : List (H × α)) {x : H} {a : α} (h : Holds store q (xs ++ (x, a) :: ys)) :
    (if q.tail = some x then (handles xs).getLast? else q.tail) =
      (handles (xs ++ ys)).getLast? := by
  obtain ⟨-, hx, -⟩ := h.not_mem xs
  rw [h.tail_eq, handles_append, handles_append, handles_cons, List.getLast?_append,
    List.getLast?_append, List.getLast?_cons]
  cases hlast : (handles ys).getLast? with
  | none => simp
  | some y =>
    have hne : y ≠ x := by
      intro heq
      exact hx (heq ▸ List.mem_of_getLast? hlast)
    simp [hne]

theorem remove_first {x : H} {a : α} {next : Option H} (h : Holds store q ((x, a) :: ys))
    (hx : store x = some ⟨next, a⟩) :
    Holds (Function.update store x none)
      { head := next
        tail := if q.tail = some x then none else q.tail
        len := q.len - 1 } ys where
  chain := (h.pop hx none).chain
  tail_eq := h.tail_remove []
  len_eq := (h.pop hx none).len_eq
  nodup := (h.pop hx none).nodup

theorem remove {p x : H} {u a : α} {next : Option H}
    (h : Holds store q (xs ++ [(p, u)] ++ (x, a) :: ys)) (hx : store x = some ⟨next, a⟩) :
    Holds (Function.update (Function.update store p (some ⟨next, u⟩)) x none)
      { q with
        tail := if q.tail = some x then some p else q.tail
        len := q.len - 1 } (xs ++ [(p, u)] ++ ys) := by
  obtain ⟨hnot, hnot', hnodup⟩ := h.not_mem (xs ++ [(p, u)])
  obtain ⟨next', hcell, hxs, hys⟩ := h.cons_split (xs ++ [(p, u)])
  cases hx.symm.trans hcell
  have hp : p ∉ handles xs ∧ p ∉ handles ys := by
    rw [handles_append, List.append_assoc, handles_cons, handles_nil, List.singleton_append,
      List.nodup_middle, List.nodup_cons, List.mem_append, not_or] at hnodup
    exact hnodup.1
  have hchain := (hxs.relink (c := ⟨none, u⟩) hp.1 next).append (hys.update_of_not_mem hp.2)
  refine ⟨hchain.update_of_not_mem ?_, ?_, ?_, ?_⟩
  · rw [handles_append, List.mem_append]
    exact fun hmem => hmem.elim hnot hnot'
  · rw [← h.tail_remove (xs ++ [(p, u)]), handles_append, handles_cons, handles_nil,
      List.getLast?_concat]
  · have hlen := h.len_eq
    rw [List.length_append, List.length_cons] at hlen
    change q.len - 1 = _
    rw [List.length_append]
    omega
  · rwa [handles_append]

end Holds

def readBack (store : Store H α) : ℕ → Option H → List α
  | 0, _ => []
  | _ + 1, none => []
  | fuel + 1, some x =>
    match store x with
    | none => []
    | some c => c.value :: readBack store fuel c.next

theorem Segment.readBack {first : Option H} (h : Segment store first items none) {fuel : ℕ}
    (hfuel : items.length ≤ fuel) : readBack store fuel first = items.map Prod.snd := by
  induction items generalizing first fuel with
  | nil =>
    cases h
    cases fuel with
    | zero => rfl
    | succ fuel => rfl
  | cons x items ih =>
    cases h with
    | cons cell rest =>
      cases fuel with
      | zero => cases hfuel
      | succ fuel =>
        rw [IntrusiveQueue.readBack, cell]
        exact congrArg (_ :: ·) (ih rest (Nat.le_of_succ_le_succ hfuel))

theorem Holds.readBack {q : Queue H} (h : Holds store q items) {fuel : ℕ}
    (hfuel : items.length ≤ fuel) : readBack store fuel q.head = items.map Prod.snd :=
  h.chain.readBack hfuel

/-- What an operation on one queue does to the store: cells of other handles stay as they are,
cells that leave the queue are given back, cells that enter it were free. -/
structure Moves (store store' : Store H α) (items items' : List (H × α)) : Prop where
  outside : ∀ x, x ∉ handles items → x ∉ handles items' → store' x = store x
  freed : ∀ x ∈ handles items, x ∉ handles items' → store' x = none
  fresh : ∀ x ∈ handles items', x ∉ handles items → store x = none

namespace Moves

variable {store'' : Store H α} {items' items'' : List (H × α)}

theorem refl (store : Store H α) (items : List (H × α)) : Moves store store items items :=
  ⟨fun _ _ _ => rfl, fun _ h h' => absurd h h', fun _ h h' => absurd h h'⟩

theorem of_remove (xs : List (H × α)) {x : H} {a : α} (hx : store' x = none)
    (hout : ∀ y, y ∉ handles (xs ++ (x, a) :: ys) → store' y = store y) :
    Moves store store' (xs ++ (x, a) :: ys) (xs ++ ys) where
  outside := fun y hy _ => hout y hy
  freed := by
    intro y hy hy'
    rw [handles_append, handles_cons, List.mem_append, List.mem_cons] at hy
    rw [handles_append, List.mem_append, not_or] at hy'
    rcases hy with hy | rfl | hy
    · exact absurd hy hy'.1
    · exact hx
    · exact absurd hy hy'.2
  fresh := by
    intro y hy hy'
    rw [handles_append, List.mem_append] at hy
    rw [handles_append, handles_cons, List.mem_append, List.mem_cons, not_or, not_or] at hy'
    rcases hy with hy | hy
    · exact absurd hy hy'.1
    · exact absurd hy hy'.2.2

theorem of_append {x : H} {a : α} (hx : store x = none)
    (hout : ∀ y, y ∉ handles items → y ≠ x → store' y = store y) :
    Moves store store' items (items ++ [(x, a)]) where
  outside := by
    intro y hy hy'
    exact hout y hy fun heq => hy' (by simp [heq])
  freed := by
    intro y hy hy'
    exact absurd (by simp [hy]) hy'
  fresh := by
    intro y hy hy'
    rw [handles_append, List.mem_append, handles_cons, handles_nil, List.mem_singleton] at hy
    rcases hy with hy | rfl
    · exact absurd hy hy'
    · exact hx

theorem trans (h : Moves store store' items items') (h' : Moves store' store'' items' items'') :
    Moves store store'' items items'' where
  outside := by
    intro x hx hx''
    by_cases hx' : x ∈ handles items'
    · rw [h'.freed x hx' hx'', h.fresh x hx' hx]
    · rw [h'.outside x hx' hx'', h.outside x hx hx']
  freed := by
    intro x hx hx''
    by_cases hx' : x ∈ handles items'
    · exact h'.freed x hx' hx''
    · rw [h'.outside x hx' hx'', h.freed x hx hx']
  fresh := by
    intro x hx'' hx
    by_cases hx' : x ∈ handles items'
    · exact h.fresh x hx' hx
    · rw [← h.outside x hx hx', h'.fresh x hx'' hx']

end Moves

/-- Queues that share a store, each with cells of its own. -/
structure Family {ι : Type} (store : Store H α) (queue : ι → Queue H) (items : ι → List (H × α)) :
    Prop where
  holds : ∀ i, Holds store (queue i) (items i)
  disjoint : ∀ i j, i ≠ j → ∀ x ∈ handles (items i), x ∉ handles (items j)

namespace Family

variable {ι : Type} [DecidableEq ι] {queue : ι → Queue H} {items : ι → List (H × α)} {i : ι}
  {q' : Queue H} {items' : List (H × α)}

omit [DecidableEq ι] in
theorem not_mem_of_move (h : Family store queue items) (hmove : Moves store store' (items i) items')
    {j : ι} (hj : j ≠ i) {x : H} (hx : x ∈ handles (items j)) : x ∉ handles items' := by
  intro hx'
  have hout : x ∉ handles (items i) := h.disjoint j i hj x hx
  exact (h.holds j).ne_none hx (hmove.fresh x hx' hout)

theorem move (h : Family store queue items) (hmove : Moves store store' (items i) items')
    (hholds : Holds store' q' items') :
    Family store' (Function.update queue i q') (Function.update items i items') where
  holds := by
    intro j
    by_cases hj : j = i
    · subst hj
      rwa [Function.update_self, Function.update_self]
    · rw [Function.update_of_ne hj, Function.update_of_ne hj]
      apply (h.holds j).frame
      intro x hx
      exact hmove.outside x (h.disjoint j i hj x hx) (h.not_mem_of_move hmove hj hx)
  disjoint := by
    intro j k hjk x hx hx'
    by_cases hj : j = i
    · subst hj
      rw [Function.update_self] at hx
      rw [Function.update_of_ne hjk.symm] at hx'
      exact h.not_mem_of_move hmove hjk.symm hx' hx
    · rw [Function.update_of_ne hj] at hx
      by_cases hk : k = i
      · subst hk
        rw [Function.update_self] at hx'
        exact h.not_mem_of_move hmove hj hx hx'
      · rw [Function.update_of_ne hk] at hx'
        exact h.disjoint j k hjk x hx hx'

end Family

end Tendrilix.IntrusiveQueue
