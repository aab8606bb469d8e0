import Tendrilix.PacketPool.Queue
import Tendrilix.PacketPool.Spec

/-!
# The pending queue is a list

Each operation on the queue of a tunnel, seen on the list of packets that its chain of cells
reads back as.
-/

namespace Tendrilix

open IntrusiveQueue
open Noise (MessageType)

def QueuedPacket.Waits (now : ℕ) (v : QueuedPacket) : Prop := now - v.queuedAt < pendingPacketTtl

instance (now : ℕ) (v : QueuedPacket) : Decidable (v.Waits now) :=
  inferInstanceAs (Decidable (_ < _))

namespace PacketQueue

variable {N BYTES : ℕ} {q : PacketQueue} {pool : PacketPool N BYTES}
  {xs ys items : List (ℕ × QueuedPacket)}

theorem length_le (hp : pool.WF) (h : Holds pool.view q items) : items.length ≤ N := by
  have hsub : (handles items).toFinset ⊆ Finset.range N := by
    intro x hx
    rw [List.mem_toFinset] at hx
    obtain ⟨⟨y, v⟩, hmem, rfl⟩ := List.mem_map.mp hx
    obtain ⟨c, hc, -⟩ := h.live hmem
    exact Finset.mem_range.mpr (PacketPool.lt_of_view hp hc)
  have hcard := Finset.card_le_card hsub
  rw [List.toFinset_card_of_nodup h.nodup, Finset.card_range, handles, List.length_map] at hcard
  exact hcard

theorem unlink_spec (hp : pool.WF) {x : ℕ} {a : QueuedPacket} {next : Option ℕ}
    (h : Holds pool.view q (xs ++ (x, a) :: ys)) (hx : pool.view x = some ⟨next, a⟩) :
    ∃ q' pool', q.unlink pool (handles xs).getLast? x next = .ok (q', pool') ∧ pool'.WF ∧
      Holds pool'.view q' (xs ++ ys) ∧
      Moves pool.view pool'.view (xs ++ (x, a) :: ys) (xs ++ ys) := by
  have hlen : q.len ≠ 0 := by
    rw [h.len_eq, List.length_append, List.length_cons]
    omega
  rcases List.eq_nil_or_concat xs with rfl | ⟨ws, ⟨p, u⟩, rfl⟩
  · obtain ⟨pool₁, hset, hwf₁, hview₁⟩ := PacketPool.setNext_spec hp hx none
    have hx₁ : pool₁.view x = some ⟨none, a⟩ := by rw [hview₁, Function.update_self]
    obtain ⟨pool₂, hfree, hwf₂, hview₂⟩ := PacketPool.free_spec hwf₁ hx₁
    rw [hview₁, Function.update_idem] at hview₂
    refine ⟨{ head := next, tail := if q.tail = some x then none else q.tail, len := q.len - 1 },
      pool₂, ?_, hwf₂, ?_, ?_⟩
    · simp only [handles_nil, List.getLast?_nil, unlink, link, ok_bind, hset, hfree, pure_eq_ok]
      split <;> simp
    · rw [hview₂]
      exact h.remove_first hx
    · rw [hview₂]
      refine .of_remove _ (Function.update_self ..) fun y hy => ?_
      exact Function.update_of_ne (fun heq => hy (by simp [heq])) _ _
  · rw [List.concat_eq_append] at h ⊢
    obtain ⟨c, hp₀, rfl⟩ := h.live (x := p) (a := u) (by simp)
    obtain ⟨pool₁, hlink, hwf₁, hview₁⟩ := PacketPool.setNext_spec hp hp₀ next
    have hne : x ≠ p := by
      intro heq
      exact (h.not_mem (ws ++ [(p, c.value)])).1 (by simp [heq])
    have hx₁ : pool₁.view x = some ⟨next, a⟩ := by
      rw [hview₁, Function.update_of_ne hne, hx]
    obtain ⟨pool₂, hset, hwf₂, hview₂⟩ := PacketPool.setNext_spec hwf₁ hx₁ none
    have hx₂ : pool₂.view x = some ⟨none, a⟩ := by rw [hview₂, Function.update_self]
    obtain ⟨pool₃, hfree, hwf₃, hview₃⟩ := PacketPool.free_spec hwf₂ hx₂
    rw [hview₂, hview₁, Function.update_idem] at hview₃
    refine ⟨{ q with tail := if q.tail = some x then some p else q.tail, len := q.len - 1 },
      pool₃, ?_, hwf₃, ?_, ?_⟩
    · rw [handles_append, handles_cons, handles_nil, List.getLast?_concat]
      simp only [unlink, link, hlink, ok_bind, hset, hfree, pure_eq_ok]
      split <;> simp
    · rw [hview₃]
      exact h.remove hx
    · rw [hview₃]
      refine .of_remove _ (Function.update_self ..) fun y hy => ?_
      rw [Function.update_of_ne, Function.update_of_ne]
      · exact fun heq => hy (by simp [heq])
      · exact fun heq => hy (by simp [heq])

theorem dropExpiredLoop_spec (now : ℕ) (xs ys : List (ℕ × QueuedPacket)) (dropped fuel : ℕ)
    (hp : pool.WF)
    (h : Holds pool.view q (xs ++ ys)) (hfuel : ys.length < fuel) :
    ∃ q' pool', dropExpiredLoop now fuel q pool (handles xs).getLast? (handles ys).head? dropped =
        .ok (dropped + (ys.length - (ys.filter (·.2.Waits now)).length), q', pool') ∧ pool'.WF ∧
      Holds pool'.view q' (xs ++ ys.filter (·.2.Waits now)) ∧
      Moves pool.view pool'.view (xs ++ ys) (xs ++ ys.filter (·.2.Waits now)) := by
  induction ys generalizing fuel xs q pool dropped with
  | nil =>
    obtain ⟨fuel, rfl⟩ := Nat.exists_eq_succ_of_ne_zero (Nat.pos_iff_ne_zero.mp hfuel)
    exact ⟨q, pool, rfl, hp, h, .refl _ _⟩
  | cons y ys ih =>
    obtain ⟨x, a⟩ := y
    obtain ⟨fuel, rfl⟩ := Nat.exists_eq_succ_of_ne_zero (Nat.ne_of_gt (Nat.zero_lt_of_lt hfuel))
    rw [List.length_cons] at hfuel
    obtain ⟨next, hx, -, hrest⟩ := h.cons_split xs
    have hle := List.length_filter_le (fun y => decide (y.2.Waits now)) ys
    simp only [handles_cons, List.head?_cons, dropExpiredLoop, PacketPool.next_spec hx,
      PacketPool.queuedAt_spec hx, ok_bind]
    rw [hrest.head_eq]
    by_cases hold : pendingPacketTtl ≤ now - a.queuedAt
    · have hnot : ¬a.Waits now := Nat.not_lt.mpr hold
      obtain ⟨q₁, pool₁, hunlink, hwf₁, hholds₁, hmoves₁⟩ := unlink_spec hp h hx
      rw [hrest.head_eq] at hunlink
      obtain ⟨q₂, pool₂, hloop, hwf₂, hholds₂, hmoves₂⟩ :=
        ih xs (dropped + 1) fuel hwf₁ hholds₁ (by omega)
      rw [if_pos hold, hunlink, ok_bind, hloop, List.filter_cons_of_neg (by simpa using hnot)]
      refine ⟨q₂, pool₂, ?_, hwf₂, hholds₂, hmoves₁.trans hmoves₂⟩
      congr 2
      rw [List.length_cons]
      omega
    · have hwaits : a.Waits now := Nat.lt_of_not_le hold
      have h' : Holds pool.view q ((xs ++ [(x, a)]) ++ ys) := by
        rwa [List.append_assoc]
      obtain ⟨q₂, pool₂, hloop, hwf₂, hholds₂, hmoves₂⟩ :=
        ih (xs ++ [(x, a)]) dropped fuel hp h' (by omega)
      rw [handles_append, handles_cons, handles_nil, List.getLast?_concat] at hloop
      rw [if_neg hold, hloop, List.filter_cons_of_pos (by simpa using hwaits)]
      simp only [List.append_assoc, List.singleton_append] at hholds₂ hmoves₂
      refine ⟨q₂, pool₂, ?_, hwf₂, hholds₂, hmoves₂⟩
      congr 2
      rw [List.length_cons, List.length_cons]
      omega

theorem dropExpired_spec (hp : pool.WF) (h : Holds pool.view q items) (now : ℕ) :
    ∃ q' pool', q.dropExpired pool now =
        .ok (items.length - (items.filter (·.2.Waits now)).length, q', pool') ∧ pool'.WF ∧
      Holds pool'.view q' (items.filter (·.2.Waits now)) ∧
      Moves pool.view pool'.view items (items.filter (·.2.Waits now)) := by
  have hfuel := length_le hp h
  have hloop := dropExpiredLoop_spec now [] items 0 (N + 1) hp h (by omega)
  rw [handles_nil, List.getLast?_nil, ← h.head_eq] at hloop
  simpa only [dropExpired, Nat.zero_add, List.nil_append] using hloop

theorem push_spec (hp : pool.WF) (h : Holds pool.view q items) (packetType : MessageType)
    (packet : Bytes) (now : ℕ) :
    ∃ q' pool' items', q.push pool packetType packet now = .ok (q', pool') ∧ pool'.WF ∧
      Holds pool'.view q' items' ∧ Moves pool.view pool'.view items items' ∧
      (items' = items ∧
          (maxPendingPackets ≤ items.length ∨ pool.alloc packetType packet now = .ok (none, pool)) ∨
        items.length < maxPendingPackets ∧
          ∃ x pool₁, pool.alloc packetType packet now = .ok (some x, pool₁) ∧
            items' = items ++ [(x, ⟨now, packetType, packet⟩)]) := by
  rw [push, ← h.len_eq]
  by_cases hfull : maxPendingPackets ≤ q.len
  · rw [if_pos hfull]
    exact ⟨q, pool, items, rfl, hp, h, .refl _ _, .inl ⟨rfl, .inl hfull⟩⟩
  rw [if_neg hfull]
  obtain ⟨r, pool₁, halloc, hwf₁, hres⟩ := PacketPool.alloc_spec hp packetType packet now
  cases r with
  | none =>
    obtain rfl : pool₁ = pool := hres
    simp only [halloc, ok_bind, pure_eq_ok]
    exact ⟨q, pool₁, items, rfl, hp, h, .refl _ _, .inl ⟨rfl, .inr trivial⟩⟩
  | some x =>
    obtain ⟨hfree, hview₁, -⟩ := hres
    have hx : x ∉ handles items := fun hmem => h.ne_none hmem hfree
    simp only [halloc, ok_bind]
    have htail := h.tail_eq
    rcases List.eq_nil_or_concat items with rfl | ⟨ws, ⟨p, u⟩, rfl⟩
    · rw [handles_nil, List.getLast?_nil] at htail
      simp only [htail, link, ok_bind, pure_eq_ok]
      refine ⟨_, _, [(x, ⟨now, packetType, packet⟩)], rfl, hwf₁, ?_, ?_,
        .inr ⟨Nat.lt_of_not_le hfull, x, _, rfl, rfl⟩⟩
      · rw [hview₁]
        exact h.pushBack_empty
      · rw [hview₁]
        exact .of_append hfree fun y _ hne => Function.update_of_ne hne _ _
    · rw [List.concat_eq_append] at h hx htail ⊢
      obtain ⟨c, hp₀, rfl⟩ := h.live (x := p) (a := u) (by simp)
      have hne : p ≠ x := by
        intro heq
        exact hx (by simp [heq])
      have hp₁ : pool₁.view p = some c := by rw [hview₁, Function.update_of_ne hne, hp₀]
      obtain ⟨pool₂, hset, hwf₂, hview₂⟩ := PacketPool.setNext_spec hwf₁ hp₁ (some x)
      rw [hview₁] at hview₂
      rw [handles_append, handles_cons, handles_nil, List.getLast?_concat] at htail
      simp only [htail, link, hset, ok_bind, pure_eq_ok]
      refine ⟨_, _, ws ++ [(p, c.value)] ++ [(x, ⟨now, packetType, packet⟩)], rfl, hwf₂, ?_, ?_,
        .inr ⟨Nat.lt_of_not_le hfull, x, _, rfl, rfl⟩⟩
      · rw [hview₂]
        exact h.pushBack hx
      · rw [hview₂]
        refine .of_append hfree fun y hy hne => ?_
        rw [Function.update_of_ne (fun heq => hy (by simp [heq])), Function.update_of_ne hne]

theorem dequeue_spec (hp : pool.WF) {x : ℕ} {a : QueuedPacket}
    (h : Holds pool.view q ((x, a) :: items)) :
    ∃ q' pool', q.dequeue pool = .ok (some x, q', pool') ∧ pool'.WF ∧
      Holds pool'.view q' items ∧ pool'.view = Function.update pool.view x (some ⟨none, a⟩) := by
  obtain ⟨next, hx, -, -⟩ := h.cons_split []
  obtain ⟨pool₁, htake, hwf₁, hview₁⟩ := PacketPool.takeNext_spec hp hx
  have hlen : q.len ≠ 0 := by
    rw [h.len_eq, List.length_cons]
    omega
  refine ⟨_, pool₁, ?_, hwf₁, hview₁ ▸ h.pop hx _, hview₁⟩
  rw [dequeue, h.head_eq]
  simp only [handles_cons, List.head?_cons, htake, ok_bind, if_neg hlen, pure_eq_ok]

theorem dequeue_nil (h : Holds pool.view q []) : q.dequeue pool = .ok (none, q, pool) := by
  rw [dequeue, h.head_eq]
  rfl

theorem requeue_spec (hp : pool.WF) {x : ℕ} {a : QueuedPacket} {next : Option ℕ}
    (h : Holds pool.view q items) (hx : x ∉ handles items) (hcell : pool.view x = some ⟨next, a⟩)
    (hlen : items.length < maxPendingPackets) :
    ∃ q' pool', q.requeue pool x = .ok (q', pool') ∧ pool'.WF ∧
      Holds pool'.view q' ((x, a) :: items) ∧
      pool'.view = Function.update pool.view x (some ⟨q.head, a⟩) := by
  obtain ⟨pool₁, hset, hwf₁, hview₁⟩ := PacketPool.setNext_spec hp hcell q.head
  rw [← h.len_eq] at hlen
  refine ⟨_, pool₁, ?_, hwf₁, hview₁ ▸ h.pushFront hx, hview₁⟩
  rw [requeue, if_neg (Nat.not_le.mpr hlen), hset]
  rfl

theorem freeChainLoop_spec (fuel : ℕ) (hp : pool.WF) (h : Holds pool.view q items)
    (hfuel : items.length < fuel) :
    ∃ pool', PacketPool.freeChainLoop fuel q.head pool = .ok pool' ∧ pool'.WF ∧
      Moves pool.view pool'.view items [] := by
  induction items generalizing fuel q pool with
  | nil =>
    obtain ⟨fuel, rfl⟩ := Nat.exists_eq_succ_of_ne_zero (Nat.ne_of_gt hfuel)
    rw [h.head_eq]
    exact ⟨pool, rfl, hp, .refl _ _⟩
  | cons y items ih =>
    obtain ⟨x, a⟩ := y
    obtain ⟨fuel, rfl⟩ := Nat.exists_eq_succ_of_ne_zero (Nat.ne_of_gt (Nat.zero_lt_of_lt hfuel))
    rw [List.length_cons] at hfuel
    obtain ⟨next, hx, -, -⟩ := h.cons_split []
    obtain ⟨pool₁, htake, hwf₁, hview₁⟩ := PacketPool.takeNext_spec hp hx
    have hx₁ : pool₁.view x = some ⟨none, a⟩ := by rw [hview₁, Function.update_self]
    obtain ⟨pool₂, hfree, hwf₂, hview₂⟩ := PacketPool.free_spec hwf₁ hx₁
    rw [hview₁, Function.update_idem] at hview₂
    obtain ⟨pool₃, hloop, hwf₃, hmoves⟩ := ih fuel hwf₂ (hview₂ ▸ h.pop hx none) (by omega)
    have hfirst : Moves pool.view pool₂.view ((x, a) :: items) items := by
      rw [hview₂]
      refine .of_remove [] (Function.update_self ..) fun y hy => ?_
      exact Function.update_of_ne (fun heq => hy (by simp [heq])) _ _
    refine ⟨pool₃, ?_, hwf₃, hfirst.trans hmoves⟩
    rw [h.head_eq]
    simp only [handles_cons, List.head?_cons, PacketPool.freeChainLoop, htake, hfree, ok_bind]
    exact hloop

theorem clear_spec (hp : pool.WF) (h : Holds pool.view q items) :
    ∃ pool', q.clear pool = .ok ({}, pool') ∧ pool'.WF ∧ Moves pool.view pool'.view items [] := by
  have hfuel := length_le hp h
  obtain ⟨pool', hfree, hwf, hmoves⟩ := freeChainLoop_spec (N + 1) hp h (by omega)
  refine ⟨pool', ?_, hwf, hmoves⟩
  rw [clear, PacketPool.freeChain, hfree]
  rfl

end PacketQueue

end Tendrilix
