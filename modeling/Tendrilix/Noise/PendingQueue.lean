import Tendrilix.Noise.Run
import Tendrilix.Noise.TunnSpec
import Tendrilix.PacketPool.QueueSpec

/-!
# Tunnels that share a packet pool

Any number of tunnels keep their pending packets in one pool. Seen from outside, each of them has a
bounded first-in-first-out list of its own.
-/

namespace Tendrilix.Noise

open IntrusiveQueue

variable {K : Crypto} {N BYTES : ℕ}

/-! ### The abstract queue -/

namespace Fifo

def waiting (now : ℕ) (l : List QueuedPacket) : List QueuedPacket := l.filter (·.Waits now)

/-- `room` says whether the shared pool takes the packet. -/
def enqueue (now : ℕ) (packetType : MessageType) (packet : Bytes) (room : Bool)
    (l : List QueuedPacket) : List QueuedPacket :=
  if maxPacketSize < packet.length then l
  else if (waiting now l).length < maxPendingPackets ∧ room = true then
    waiting now l ++ [⟨now, packetType, packet⟩]
  else waiting now l

def flush (sent : Bool) (l : List QueuedPacket) : List QueuedPacket := if sent then l.tail else l

theorem length_waiting_le (now : ℕ) (l : List QueuedPacket) : (waiting now l).length ≤ l.length :=
  List.length_filter_le _ _

theorem length_enqueue_le (now : ℕ) (packetType : MessageType) (packet : Bytes) (room : Bool)
    {l : List QueuedPacket} (h : l.length ≤ maxPendingPackets) :
    (enqueue now packetType packet room l).length ≤ maxPendingPackets := by
  have hle := length_waiting_le now l
  rw [enqueue]
  split
  · exact h
  split
  · rename_i hroom
    rw [List.length_append, List.length_singleton]
    omega
  · omega

theorem queuedAt_of_mem_enqueue {now : ℕ} {packetType : MessageType} {packet : Bytes} {room : Bool}
    {l : List QueuedPacket} {v : QueuedPacket}
    (hv : v ∈ enqueue now packetType packet room l) : v ∈ l ∨ v.queuedAt = now := by
  rw [enqueue] at hv
  split at hv
  · exact .inl hv
  split at hv
  · rcases List.mem_append.mp hv with hv | hv
    · exact .inl (List.mem_of_mem_filter hv)
    · rw [List.mem_singleton.mp hv]
      exact .inr rfl
  · exact .inl (List.mem_of_mem_filter hv)

theorem waiting_map (now : ℕ) (items : List (ℕ × QueuedPacket)) :
    waiting now (items.map Prod.snd) = (items.filter (·.2.Waits now)).map Prod.snd :=
  List.filter_map

end Fifo

namespace Tunn

variable {t t' : Tunn K} {w w' : World K N BYTES} {items : List (ℕ × QueuedPacket)}

def maySend (t : Tunn K) : Bool :=
  t.currentSession.any fun s => s.sendingKeyCounter < rejectAfterMessages

/-- The pool takes one more packet once the expired ones of this tunnel are dropped. -/
def hasRoom (t : Tunn K) (packetType : MessageType) (packet : Bytes) (w : World K N BYTES) : Bool :=
  okAnd (fun (_, _, pool) => okAnd (fun (handle, _) => handle.isSome)
      (pool.alloc packetType packet w.now.1))
    (t.packetQueue.dropExpired w.pool w.now.1)

structure QueueMoved (t : Tunn K) (w : World K N BYTES) (items : List (ℕ × QueuedPacket))
    (t' : Tunn K) (w' : World K N BYTES) (items' : List (ℕ × QueuedPacket)) : Prop where
  wf : w'.pool.WF
  holds : Holds w'.pool.view t'.packetQueue items'
  moves : Moves w.pool.view w'.pool.view items items'
  clock_eq : w'.clock = w.clock
  reads_le : w.reads ≤ w'.reads

theorem QueueMoved.after_read {items' : List (ℕ × QueuedPacket)}
    (h : QueueMoved t w.now.2 items t' w' items') : QueueMoved t w items t' w' items' :=
  ⟨h.wf, h.holds, h.moves, h.clock_eq, (Nat.le_succ _).trans h.reads_le⟩

theorem dropExpiredQueuedPackets_spec (hp : w.pool.WF)
    (h : Holds w.pool.view t.packetQueue items) (now : ℕ) :
    ∃ dropped t' w', t.dropExpiredQueuedPackets now w = .ok (dropped, t', w') ∧
      QueueMoved t w items t' w' (items.filter (·.2.Waits now)) ∧
      t.packetQueue.dropExpired w.pool now = .ok (dropped, t'.packetQueue, w'.pool) ∧
      w'.reads = w.reads := by
  obtain ⟨q', pool', hdrop, hwf, hholds, hmoves⟩ := PacketQueue.dropExpired_spec hp h now
  refine ⟨_, { t with packetQueue := q' }, { w with pool := pool' }, ?_,
    ⟨hwf, hholds, hmoves, rfl, le_rfl⟩, hdrop, rfl⟩
  rw [dropExpiredQueuedPackets, hdrop]
  rfl

theorem clearPacketQueue_spec (hp : w.pool.WF) (h : Holds w.pool.view t.packetQueue items) :
    ∃ t' w', t.clearPacketQueue w = .ok (t', w') ∧ QueueMoved t w items t' w' [] := by
  obtain ⟨pool', hclear, hwf, hmoves⟩ := PacketQueue.clear_spec hp h
  refine ⟨{ t with packetQueue := {} }, { w with pool := pool' }, ?_,
    ⟨hwf, .empty _, hmoves, rfl, le_rfl⟩⟩
  rw [clearPacketQueue, hclear]
  rfl

theorem queuePacket_spec (hp : w.pool.WF) (h : Holds w.pool.view t.packetQueue items)
    (packetType : MessageType) (packet : Bytes) :
    ∃ t' w' items', t.queuePacket packetType packet w = .ok (t', w') ∧
      QueueMoved t w items t' w' items' ∧
      items'.map Prod.snd = Fifo.enqueue w.now.1 packetType packet (t.hasRoom packetType packet w)
        (items.map Prod.snd) := by
  rw [queuePacket, Fifo.enqueue]
  split
  · exact ⟨t, w, items, rfl, ⟨hp, h, .refl _ _, rfl, le_rfl⟩, rfl⟩
  · obtain ⟨dropped, t₁, w₁, hcall, hmoved, hdrop, hreads⟩ :=
      dropExpiredQueuedPackets_spec (w := w.now.2) hp h w.now.1
    obtain ⟨q', pool', items', hpush, hwf, hholds, hmoves, hcases⟩ :=
      PacketQueue.push_spec hmoved.wf hmoved.holds packetType packet w.now.1
    refine ⟨{ t₁ with packetQueue := q' }, { w₁ with pool := pool' }, items', ?_,
      ⟨hwf, hholds, hmoved.moves.trans hmoves, hmoved.clock_eq, ?_⟩, ?_⟩
    · simp only [hcall, hpush, ok_bind, pure_eq_ok]
    · exact (Nat.le_succ _).trans hreads.ge
    · have hroom : t.hasRoom packetType packet w = okAnd (fun r => r.1.isSome)
          (w₁.pool.alloc packetType packet w.now.1) := by
        rw [hasRoom]
        exact congrArg _ hdrop
      rw [Fifo.waiting_map, List.length_map, hroom]
      rcases hcases with ⟨rfl, hfull | hnone⟩ | ⟨hlt, x, pool₁, halloc, rfl⟩
      · rw [if_neg fun h => absurd h.1 (Nat.not_lt.mpr hfull)]
      · rw [hnone, if_neg fun h => Bool.false_ne_true h.2]
      · rw [halloc, if_pos ⟨hlt, rfl⟩, List.map_append]
        rfl

theorem maySend_eq_true {s : Session} (hs : t.currentSession = some s)
    (hlt : s.sendingKeyCounter < rejectAfterMessages) : t.maySend = true := by
  rw [maySend, hs]
  simpa using hlt

theorem maySend_eq_false
    (h : ∀ s, t.currentSession = some s → rejectAfterMessages ≤ s.sendingKeyCounter) :
    t.maySend = false := by
  rw [maySend]
  cases hs : t.currentSession with
  | none => rfl
  | some s => simpa using h s hs

theorem tickSent_packetQueue (t : Tunn K) (src : Bytes) :
    (t.tickSent src).packetQueue = t.packetQueue := by
  rw [tickSent]
  split <;> rfl

/-- The end of a flush, once the packet has been encrypted or not. -/
def finishFlush (t : Tunn K) (handle : ℕ) (packet : Bytes) (written : Option Bytes)
    (w : World K N BYTES) : Call (TunnResult × Tunn K × World K N BYTES) :=
  match written with
  | some written => do
    let pool ← w.pool.free handle
    return (.writeToNetwork written, t.tickSent packet, { w with pool := pool })
  | none => do
    let (t, w) ← t.requeuePacket handle w
    return (.done, t, w)

theorem flushQueuedPacket_spec (hp : w.pool.WF) (h : Holds w.pool.view t.packetQueue items)
    (hlen : items.length ≤ maxPendingPackets) (dstLen : ℕ) :
    (∃ r t' w', t.flushQueuedPacket dstLen w = .ok (r, t', w') ∧
      QueueMoved t w items t' w' (if t.maySend then items.tail else items) ∧
      ((∃ packet, r = .writeToNetwork packet) ↔ t.maySend = true ∧ items ≠ [])) ∨
    (t.flushQueuedPacket dstLen w = .error .destinationBufferTooSmall ∧
      ∃ x v rest, items = (x, v) :: rest ∧ dstLen < 32 + Session.paddedLen v.data.length) := by
  cases items with
  | nil =>
    left
    have hcall : t.flushQueuedPacket dstLen w = .ok (.done, t, w) := by
      rw [flushQueuedPacket, dequeuePacket, PacketQueue.dequeue_nil h]
      rfl
    refine ⟨.done, t, w, hcall, ?_, ?_⟩
    · rw [List.tail_nil, ite_self]
      exact ⟨hp, h, .refl _ _, rfl, le_rfl⟩
    · simp
  | cons y rest =>
    obtain ⟨x, v⟩ := y
    rw [List.length_cons] at hlen
    obtain ⟨hnot, -⟩ := (h.not_mem []).2
    obtain ⟨q₁, pool₁, hdequeue, hwf₁, hholds₁, hview₁⟩ := PacketQueue.dequeue_spec hp h
    have hx₁ : pool₁.view x = some ⟨none, v⟩ := by rw [hview₁, Function.update_self]
    have hget := PacketPool.get_spec hwf₁ hx₁
    have hcall : t.flushQueuedPacket dstLen w = ({ t with packetQueue := q₁ }.sealWithCurrent
        v.packetType v.data dstLen { w with pool := pool₁ } >>=
          fun r => r.2.1.finishFlush x v.data r.1 r.2.2) := by
      simp only [flushQueuedPacket, dequeuePacket, hdequeue, hget, ok_bind, pure_eq_ok]
      rfl
    rw [hcall]
    cases hseal : { t with packetQueue := q₁ }.sealWithCurrent v.packetType v.data dstLen
        { w with pool := pool₁ } with
    | error f =>
      obtain ⟨rfl, hsmall⟩ := sealWithCurrent_error hseal
      exact .inr ⟨rfl, x, v, rest, rfl, hsmall⟩
    | ok res =>
      obtain ⟨written, t₂, w₂⟩ := res
      left
      rcases sealWithCurrent_ok hseal with
        ⟨rfl, rfl, rfl, hexhausted⟩ | ⟨packet, s, rfl, hs, hlt, rfl, rfl⟩
      · have hsend : t.maySend = false := maySend_eq_false hexhausted
        obtain ⟨q₂, pool₂, hrequeue, hwf₂, hholds₂, hview₂⟩ :=
          PacketQueue.requeue_spec hwf₁ hholds₁ hnot hx₁ (by omega)
        rw [hview₁, Function.update_idem] at hview₂
        refine ⟨.done, { t with packetQueue := q₂ }, { w with pool := pool₂ }, ?_, ?_, ?_⟩
        · simp only [ok_bind, finishFlush, requeuePacket, hrequeue, pure_eq_ok]
        · rw [hsend]
          refine ⟨hwf₂, hholds₂, ⟨?_, ?_, ?_⟩, rfl, le_rfl⟩
          · intro y hy _
            rw [hview₂, Function.update_of_ne]
            exact fun heq => hy (by simp [heq])
          · exact fun y hy hy' => absurd hy hy'
          · exact fun y hy hy' => absurd hy hy'
        · simp [hsend]
      · have hsend : t.maySend = true := maySend_eq_true hs hlt
        obtain ⟨pool₂, hfree, hwf₂, hview₂⟩ := PacketPool.free_spec hwf₁ hx₁
        rw [hview₁, Function.update_idem] at hview₂
        have hmoves : Moves w.pool.view pool₂.view ((x, v) :: rest) rest := by
          rw [hview₂]
          refine .of_remove [] (Function.update_self ..) fun y hy => ?_
          exact Function.update_of_ne (fun heq => hy (by simp [heq])) _ _
        have hholds₂ : Holds pool₂.view q₁ rest := by
          apply hholds₁.frame
          intro y hy
          rw [hview₂, hview₁]
          have hne : y ≠ x := fun heq => hnot (heq ▸ hy)
          rw [Function.update_of_ne hne, Function.update_of_ne hne]
        simp only [ok_bind, finishFlush, hfree, pure_eq_ok]
        refine ⟨_, _, _, rfl, ?_, ?_⟩
        · rw [hsend]
          refine ⟨hwf₂, ?_, hmoves, rfl, le_rfl⟩
          rw [tickSent_packetQueue]
          exact hholds₂
        · simp [hsend]

end Tunn

/-! ### Many tunnels and one pool -/

structure SharedTunnels (ι : Type) (K : Crypto) (N BYTES : ℕ) where
  tunnels : ι → Tunn K
  world : World K N BYTES

namespace SharedTunnels

variable {ι : Type} [DecidableEq ι]

inductive Op (ι : Type) (K : Crypto)
  | queuePacket (i : ι) (packetType : MessageType) (packet : Bytes)
  | flushQueuedPacket (i : ι) (dstLen : ℕ)
  | dropExpiredQueuedPackets (i : ι)
  | clearPacketQueue (i : ι)
  /-- Whatever else happens to a tunnel, its queue aside, while the clock is read any number of
  times. -/
  | elsewhere (i : ι) (t : Tunn K) (reads : ℕ)

def start (tunnels : ι → Tunn K) (w : World K N BYTES) (profile : Profile) :
    SharedTunnels ι K N BYTES where
  tunnels i := { tunnels i with packetQueue := {} }
  world := { w with pool := .new N BYTES profile }

def set (s : SharedTunnels ι K N BYTES) (i : ι) (t : Tunn K) (w : World K N BYTES) :
    SharedTunnels ι K N BYTES where
  tunnels := Function.update s.tunnels i t
  world := w

def step (s : SharedTunnels ι K N BYTES) :
    Op ι K → Call (TunnResult × SharedTunnels ι K N BYTES)
  | .queuePacket i packetType packet => do
    let (t, w) ← (s.tunnels i).queuePacket packetType packet s.world
    return (.done, s.set i t w)
  | .flushQueuedPacket i dstLen => do
    let (r, t, w) ← (s.tunnels i).flushQueuedPacket dstLen s.world
    return (r, s.set i t w)
  | .dropExpiredQueuedPackets i => do
    let (now, w) := s.world.now
    let (_, t, w) ← (s.tunnels i).dropExpiredQueuedPackets now w
    return (.done, s.set i t w)
  | .clearPacketQueue i => do
    let (t, w) ← (s.tunnels i).clearPacketQueue s.world
    return (.done, s.set i t w)
  | .elsewhere i t reads =>
    .ok (.done, s.set i { t with packetQueue := (s.tunnels i).packetQueue }
      { s.world with reads := s.world.reads + reads })

def fifoStep (s : SharedTunnels ι K N BYTES) (l : ι → List QueuedPacket) :
    Op ι K → ι → List QueuedPacket
  | .queuePacket i packetType packet =>
    Function.update l i (Fifo.enqueue s.world.now.1 packetType packet
      ((s.tunnels i).hasRoom packetType packet s.world) (l i))
  | .flushQueuedPacket i _ => Function.update l i (Fifo.flush (s.tunnels i).maySend (l i))
  | .dropExpiredQueuedPackets i => Function.update l i (Fifo.waiting s.world.now.1 (l i))
  | .clearPacketQueue i => Function.update l i []
  | .elsewhere _ _ _ => l

def lockstep (s : SharedTunnels ι K N BYTES × (ι → List QueuedPacket)) (op : Op ι K) :
    Call (TunnResult × SharedTunnels ι K N BYTES × (ι → List QueuedPacket)) := do
  let (r, s') ← s.1.step op
  return (r, s', s.1.fifoStep s.2 op)

/-- The chains of the tunnels read back as the lists `l`: each is acyclic, ends at its tail, has
the recorded length, and consists of live handles that no other chain has. -/
structure ReadsBack (s : SharedTunnels ι K N BYTES) (l : ι → List QueuedPacket)
    (items : ι → List (ℕ × QueuedPacket)) : Prop where
  family : Family s.world.pool.view (fun i => (s.tunnels i).packetQueue) items
  values : ∀ i, (items i).map Prod.snd = l i
  bounded : ∀ i, (l i).length ≤ maxPendingPackets
  get_eq : ∀ i x v, (x, v) ∈ items i → s.world.pool.get x = .ok (v.packetType, v.data)
  queuedAt_le : ∀ i, ∀ v ∈ l i, v.queuedAt ≤ s.world.clock s.world.reads

variable {s s' : SharedTunnels ι K N BYTES} {l l' : ι → List QueuedPacket}

/-- The invariant of runs under a clock that does not run backwards. -/
structure Refines (s : SharedTunnels ι K N BYTES) (l : ι → List QueuedPacket) : Prop where
  monotone : Monotone s.world.clock
  wf : s.world.pool.WF
  reads : ∃ items, s.ReadsBack l items

theorem set_packetQueue (s : SharedTunnels ι K N BYTES) (i : ι) (t : Tunn K) (w : World K N BYTES) :
    (fun j => ((s.set i t w).tunnels j).packetQueue) =
      Function.update (fun j => (s.tunnels j).packetQueue) i t.packetQueue := by
  funext j
  by_cases hj : j = i
  · subst hj
    simp [set]
  · simp [set, hj]

theorem ReadsBack.move {items : ι → List (ℕ × QueuedPacket)} {i : ι} {t : Tunn K}
    {w : World K N BYTES} {items' : List (ℕ × QueuedPacket)} (h : s.ReadsBack l items)
    (hmono : Monotone s.world.clock)
    (hmoved : Tunn.QueueMoved (s.tunnels i) s.world (items i) t w items')
    (hbounded : items'.length ≤ maxPendingPackets)
    (hqueued : ∀ v ∈ items'.map Prod.snd, v ∈ l i ∨ v.queuedAt = s.world.clock s.world.reads) :
    (s.set i t w).Refines (Function.update l i (items'.map Prod.snd)) := by
  have hfamily := h.family.move hmoved.moves hmoved.holds
  rw [← s.set_packetQueue i t w] at hfamily
  have hclock : s.world.clock s.world.reads ≤ w.clock w.reads := by
    rw [hmoved.clock_eq]
    exact hmono hmoved.reads_le
  refine ⟨?_, hmoved.wf, Function.update items i items', hfamily, ?_, ?_, ?_, ?_⟩
  · change Monotone w.clock
    rwa [hmoved.clock_eq]
  · intro j
    by_cases hj : j = i
    · subst hj
      simp
    · simp [hj, h.values j]
  · intro j
    by_cases hj : j = i
    · subst hj
      simpa using hbounded
    · simpa [hj] using h.bounded j
  · intro j x v hmem
    obtain ⟨c, hc, rfl⟩ := (hfamily.holds j).live hmem
    exact PacketPool.get_spec hmoved.wf hc
  · intro j v hv
    change v.queuedAt ≤ w.clock w.reads
    by_cases hj : j = i
    · subst hj
      rw [Function.update_self] at hv
      rcases hqueued v hv with hold | hnew
      · exact (h.queuedAt_le j v hold).trans hclock
      · rw [hnew]
        exact hclock
    · rw [Function.update_of_ne hj] at hv
      exact (h.queuedAt_le j v hv).trans hclock

omit [DecidableEq ι] in
theorem ReadsBack.length_le {items : ι → List (ℕ × QueuedPacket)} (h : s.ReadsBack l items) (i : ι) :
    (items i).length ≤ maxPendingPackets := by
  rw [← List.length_map Prod.snd, h.values i]
  exact h.bounded i

/-- Packets that leave a chain leave a list that is as bounded and as old. -/
theorem ReadsBack.move_sublist {items : ι → List (ℕ × QueuedPacket)} {i : ι} {t : Tunn K}
    {w : World K N BYTES} {items' : List (ℕ × QueuedPacket)} (h : s.ReadsBack l items)
    (hmono : Monotone s.world.clock)
    (hmoved : Tunn.QueueMoved (s.tunnels i) s.world (items i) t w items')
    (hsub : items'.Sublist (items i)) :
    (s.set i t w).Refines (Function.update l i (items'.map Prod.snd)) := by
  refine h.move hmono hmoved (hsub.length_le.trans (h.length_le i)) fun v hv => ?_
  rw [← h.values i]
  exact .inl ((hsub.map _).subset hv)

omit [DecidableEq ι] in
theorem start_refines (tunnels : ι → Tunn K) {w : World K N BYTES} (hclock : Monotone w.clock)
    (profile : Profile) : (start tunnels w profile).Refines fun _ => [] where
  monotone := hclock
  wf := PacketPool.wf_new N BYTES profile
  reads := by
    refine ⟨fun _ => [], ⟨fun i => .empty _, ?_⟩, fun i => rfl, fun i => Nat.zero_le _, ?_, ?_⟩
    · intro i j _ x hx
      cases hx
    · intro i x v hx
      cases hx
    · intro i v hv
      cases hv

/-- Every call does to the chains what the abstract step does to the lists, and the only panic is
a flush into a destination that is too small. -/
theorem step_refines (h : s.Refines l) (op : Op ι K) :
    (∃ r s', s.step op = .ok (r, s') ∧ s'.Refines (s.fifoStep l op) ∧
      ∀ i dstLen, op = .flushQueuedPacket i dstLen →
        ((∃ packet, r = .writeToNetwork packet) ↔ (s.tunnels i).maySend = true ∧ l i ≠ [])) ∨
    (s.step op = .error .destinationBufferTooSmall ∧ ∃ i dstLen v rest,
      op = .flushQueuedPacket i dstLen ∧ l i = v :: rest ∧
        dstLen < 32 + Session.paddedLen v.data.length) := by
  obtain ⟨items, hreads⟩ := h.reads
  cases op with
  | queuePacket i packetType packet =>
    left
    obtain ⟨t, w, items', hcall, hmoved, hitems⟩ :=
      Tunn.queuePacket_spec h.wf (hreads.family.holds i) packetType packet
    rw [hreads.values i] at hitems
    refine ⟨.done, s.set i t w, by simp only [step, hcall, ok_bind, pure_eq_ok], ?_, nofun⟩
    rw [fifoStep, ← hitems]
    refine hreads.move h.monotone hmoved ?_ ?_
    · rw [← List.length_map Prod.snd, hitems]
      exact Fifo.length_enqueue_le _ _ _ _ (hreads.bounded i)
    · intro v hv
      rw [hitems] at hv
      exact Fifo.queuedAt_of_mem_enqueue hv
  | flushQueuedPacket i dstLen =>
    rcases Tunn.flushQueuedPacket_spec h.wf (hreads.family.holds i) (hreads.length_le i) dstLen with
      ⟨r, t, w, hcall, hmoved, hsent⟩ | ⟨hcall, x, v, rest, hitems, hsmall⟩
    · left
      refine ⟨r, s.set i t w, by simp only [step, hcall, ok_bind, pure_eq_ok], ?_, ?_⟩
      · have hflush : Fifo.flush (s.tunnels i).maySend (l i) =
            (if (s.tunnels i).maySend then (items i).tail else items i).map Prod.snd := by
          rw [Fifo.flush, ← hreads.values i]
          split
          · exact List.map_tail.symm
          · rfl
        rw [fifoStep, hflush]
        refine hreads.move_sublist h.monotone hmoved ?_
        split
        · exact List.tail_sublist _
        · exact List.Sublist.refl _
      · intro j dstLen' heq
        cases heq
        rw [hsent, ← hreads.values i, ne_eq, ne_eq, List.map_eq_nil_iff]
    · right
      refine ⟨by simp only [step, hcall, error_bind], i, dstLen, v, rest.map Prod.snd, rfl, ?_,
        hsmall⟩
      rw [← hreads.values i, hitems]
      rfl
  | dropExpiredQueuedPackets i =>
    left
    obtain ⟨dropped, t, w, hcall, hmoved, -, -⟩ :=
      Tunn.dropExpiredQueuedPackets_spec (w := s.world.now.2) h.wf (hreads.family.holds i)
        s.world.now.1
    refine ⟨.done, s.set i t w, by simp only [step, hcall, ok_bind, pure_eq_ok], ?_, nofun⟩
    rw [fifoStep, ← hreads.values i, Fifo.waiting_map]
    exact hreads.move_sublist h.monotone hmoved.after_read List.filter_sublist
  | clearPacketQueue i =>
    left
    obtain ⟨t, w, hcall, hmoved⟩ := Tunn.clearPacketQueue_spec h.wf (hreads.family.holds i)
    refine ⟨.done, s.set i t w, by simp only [step, hcall, ok_bind, pure_eq_ok], ?_, nofun⟩
    exact hreads.move_sublist h.monotone hmoved (List.nil_sublist _)
  | elsewhere i t reads =>
    left
    refine ⟨.done, _, rfl, ?_, nofun⟩
    have hmoved : Tunn.QueueMoved (s.tunnels i) s.world (items i)
        { t with packetQueue := (s.tunnels i).packetQueue }
        { s.world with reads := s.world.reads + reads } (items i) :=
      ⟨h.wf, hreads.family.holds i, .refl _ _, rfl, Nat.le_add_right _ _⟩
    have hmove := hreads.move_sublist h.monotone hmoved (List.Sublist.refl _)
    rwa [hreads.values i, Function.update_eq_self] at hmove

theorem lockstep_refines {r : TunnResult} {op : Op ι K} (h : s.Refines l)
    (hstep : lockstep (s, l) op = .ok (r, s', l')) : s'.Refines l' := by
  obtain ⟨⟨r, s₁⟩, hcall, hstep⟩ := bind_ok_iff.mp hstep
  cases hstep
  rcases step_refines h op with ⟨r', s₂, hcall', hrefines, -⟩ | ⟨hcall', -⟩
  · cases hcall.symm.trans hcall'
    exact hrefines
  · cases hcall.symm.trans hcall'

theorem run_error {ops : List (Op ι K)} {f : Fault} (h : s.Refines l)
    (hrun : Machine.run lockstep (s, l) ops = .error f) :
    f = .destinationBufferTooSmall ∧ ∃ i dstLen, .flushQueuedPacket i dstLen ∈ ops := by
  induction ops generalizing s l with
  | nil => cases hrun
  | cons op ops ih =>
    rcases bind_error_iff.mp hrun with hstep | ⟨⟨r, s₁, l₁⟩, hstep, hrest⟩
    · rcases step_refines h op with ⟨r', s₂, hcall, -⟩ | ⟨hcall, i, dstLen, v, rest, rfl, -⟩
      · simp only [lockstep, hcall, ok_bind, pure_eq_ok] at hstep
        cases hstep
      · simp only [lockstep, hcall, error_bind] at hstep
        cases hstep
        exact ⟨rfl, i, dstLen, List.mem_cons_self⟩
    · rcases bind_error_iff.mp hrest with hrest | ⟨⟨rs, s₂⟩, -, hnone⟩
      · obtain ⟨rfl, i, dstLen, hmem⟩ := ih (lockstep_refines h hstep) hrest
        exact ⟨rfl, i, dstLen, List.mem_cons_of_mem _ hmem⟩
      · cases hnone

/-- However the calls on tunnels that share a pool interleave, the chain of each tunnel reads back
as its abstract queue, a flush answers with a packet exactly when it has taken one off the queue,
and nothing panics but a flush into a destination that is too small. -/
theorem run_refines_fifo (tunnels : ι → Tunn K) (w : World K N BYTES) (profile : Profile)
    (hclock : Monotone w.clock) (ops : List (Op ι K)) :
    (∀ replies s l,
      Machine.run lockstep (start tunnels w profile, fun _ => []) ops = .ok (replies, s, l) →
        (∃ items, s.ReadsBack l items) ∧
        ∀ i dstLen r s' l', lockstep (s, l) (.flushQueuedPacket i dstLen) = .ok (r, s', l') →
          ((∃ packet, r = .writeToNetwork packet) ↔ (s.tunnels i).maySend = true ∧ l i ≠ [])) ∧
    ∀ f, Machine.run lockstep (start tunnels w profile, fun _ => []) ops = .error f →
      f = .destinationBufferTooSmall ∧ ∃ i dstLen, .flushQueuedPacket i dstLen ∈ ops := by
  have hstart := start_refines tunnels hclock profile
  refine ⟨fun replies s l hrun => ?_, fun f hrun => run_error hstart hrun⟩
  have hrefines : s.Refines l :=
    Machine.run_invariant (I := fun s => s.1.Refines s.2)
      (fun s op r s' _ h hstep => lockstep_refines h hstep) hrun hstart
  refine ⟨hrefines.reads, fun i dstLen r s' l' hstep => ?_⟩
  obtain ⟨⟨r', s₁⟩, hcall, hstep⟩ := bind_ok_iff.mp hstep
  cases hstep
  rcases step_refines hrefines (.flushQueuedPacket i dstLen) with
    ⟨r', s₂, hcall', -, hsent⟩ | ⟨hcall', -⟩
  · cases hcall.symm.trans hcall'
    exact hsent i dstLen rfl
  · cases hcall.symm.trans hcall'

theorem run_refines_fifo_sample :
    ∃ replies s l items, Machine.run lockstep
        (start (fun _ : Fin 2 => Sample.initiator.1) Sample.world .tiny, fun _ => [])
        [.queuePacket 0 MessageType.data [1, 2], .queuePacket 1 MessageType.data [3],
          .queuePacket 0 MessageType.relayData [4], .dropExpiredQueuedPackets 0,
          .flushQueuedPacket 0 0] = .ok (replies, s, l) ∧
      s.ReadsBack l items ∧ (l 0).map (·.data) = [[1, 2], [4]] ∧ (l 1).map (·.data) = [[3]] := by
  have hclock : Monotone Sample.world.clock := fun a b hab => Nat.mul_le_mul_right 1000 hab
  have hcheck : okAnd (fun (_, _, l) => (l 0).map (·.data) = [[1, 2], [4]] ∧
        (l 1).map (·.data) = [[3]])
      (Machine.run lockstep
        (start (fun _ : Fin 2 => Sample.initiator.1) Sample.world .tiny, fun _ => [])
        [.queuePacket 0 MessageType.data [1, 2], .queuePacket 1 MessageType.data [3],
          .queuePacket 0 MessageType.relayData [4], .dropExpiredQueuedPackets 0,
          .flushQueuedPacket 0 0]) = true := by decide +kernel
  obtain ⟨⟨replies, s, l⟩, hrun, hcheck⟩ := exists_of_okAnd hcheck
  obtain ⟨items, hitems⟩ :=
    ((run_refines_fifo (fun _ : Fin 2 => Sample.initiator.1) Sample.world .tiny hclock _).1 replies s
      l hrun).1
  exact ⟨replies, s, l, items, hrun, hitems, of_decide_eq_true hcheck⟩

end SharedTunnels

end Tendrilix.Noise
