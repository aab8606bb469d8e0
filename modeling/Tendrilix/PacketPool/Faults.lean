import Tendrilix.Ensures
import Tendrilix.PacketPool.Queue

/-!
# Faults of the pool and of queues

Whatever handles they are given, and in whatever state the pool is, the operations on packets measure
neither buffers nor durations.
-/

namespace Tendrilix

open Noise (MessageType)

section Measured

variable {N BYTES : ℕ} {f : Fault} (hf : f.Measured)

include hf

namespace HeapPool

theorem alloc_avoids (p : HeapPool N BYTES) (packetType : MessageType) (packet : Bytes)
    (queuedAt : ℕ) : Avoids f (p.alloc packetType packet queuedAt) := by
  rw [alloc]
  split
  · exact .ok _
  split
  · exact .ok _
  dsimp only
  split
  · exact .ok _
  split
  · exact .ok _
  · exact .unmeasured hf id

theorem slot_avoids (p : HeapPool N BYTES) (handle : ℕ) : Avoids f (p.slot handle) := by
  rw [slot]
  split
  · exact .ok _
  · exact .unmeasured hf id

theorem release_avoids (p : HeapPool N BYTES) (handle : ℕ) : Avoids f (p.release handle) := by
  rw [release]
  split
  · exact .unmeasured hf id
  · exact .unmeasured hf id
  split
  · exact .unmeasured hf id
  · exact .ok _

end HeapPool

namespace FixedPool

theorem findGapLoop_avoids (p : FixedPool N BYTES) (len fuel start : ℕ) :
    Avoids f (p.findGapLoop len fuel start) := by
  induction fuel generalizing start with
  | zero => exact .unmeasured hf id
  | succ fuel ih =>
    rw [findGapLoop]
    split
    · exact .ok _
    split
    · exact ih _
    · exact .ok _

theorem write_avoids (p : FixedPool N BYTES) (offset : ℕ) (packet : Bytes) :
    Avoids f (p.write offset packet) := by
  rw [write]
  split
  · exact .ok _
  · exact .unmeasured hf id

theorem slot_avoids (p : FixedPool N BYTES) (handle : ℕ) : Avoids f (p.slot handle) := by
  rw [slot]
  split
  · exact .ok _
  · exact .unmeasured hf id

theorem alloc_avoids (p : FixedPool N BYTES) (packetType : MessageType) (packet : Bytes)
    (queuedAt : ℕ) : Avoids f (p.alloc packetType packet queuedAt) := by
  rw [alloc]
  split
  · exact .ok _
  split
  · exact .ok _
  refine .bind (p.findGapLoop_avoids hf _ _ _) fun gap _ => ?_
  cases gap with
  | none => exact .ok _
  | some offset => exact .bind (p.write_avoids hf _ _) fun _ _ => .ok _

theorem get_avoids (p : FixedPool N BYTES) (handle : ℕ) : Avoids f (p.get handle) := by
  refine .bind (p.slot_avoids hf handle) fun s _ => ?_
  split
  · exact .ok _
  · exact .unmeasured hf id

theorem release_avoids (p : FixedPool N BYTES) (handle : ℕ) : Avoids f (p.release handle) :=
  .bind (p.slot_avoids hf handle) fun _ _ => .ok _

end FixedPool

namespace PacketPool

theorem alloc_avoids (p : PacketPool N BYTES) (packetType : MessageType) (packet : Bytes)
    (queuedAt : ℕ) : Avoids f (p.alloc packetType packet queuedAt) := by
  cases p with
  | heap p => exact .bind (p.alloc_avoids hf _ _ _) fun _ _ => .ok _
  | fixed p => exact .bind (p.alloc_avoids hf _ _ _) fun _ _ => .ok _

theorem queuedAt_avoids (p : PacketPool N BYTES) (handle : ℕ) : Avoids f (p.queuedAt handle) := by
  cases p with
  | heap p => exact .bind (p.slot_avoids hf handle) fun _ _ => .ok _
  | fixed p => exact .bind (p.slot_avoids hf handle) fun _ _ => .ok _

theorem get_avoids (p : PacketPool N BYTES) (handle : ℕ) : Avoids f (p.get handle) := by
  cases p with
  | heap p => exact .bind (p.slot_avoids hf handle) fun _ _ => .ok _
  | fixed p => exact p.get_avoids hf handle

theorem next_avoids (p : PacketPool N BYTES) (handle : ℕ) : Avoids f (p.next handle) := by
  cases p with
  | heap p => exact .bind (p.slot_avoids hf handle) fun _ _ => .ok _
  | fixed p => exact .bind (p.slot_avoids hf handle) fun _ _ => .ok _

theorem setNext_avoids (p : PacketPool N BYTES) (handle : ℕ) (next : Option ℕ) :
    Avoids f (p.setNext handle next) := by
  cases p with
  | heap p => exact .bind (p.slot_avoids hf handle) fun _ _ => .ok _
  | fixed p => exact .bind (p.slot_avoids hf handle) fun _ _ => .ok _

theorem takeNext_avoids (p : PacketPool N BYTES) (handle : ℕ) : Avoids f (p.takeNext handle) :=
  .bind (p.next_avoids hf handle) fun _ _ => .bind (p.setNext_avoids hf handle none) fun _ _ => .ok _

theorem free_avoids (p : PacketPool N BYTES) (handle : ℕ) : Avoids f (p.free handle) := by
  cases p with
  | heap p => exact .bind (p.release_avoids hf handle) fun _ _ => .ok _
  | fixed p => exact .bind (p.release_avoids hf handle) fun _ _ => .ok _

theorem freeChainLoop_avoids (fuel : ℕ) (head : Option ℕ) (p : PacketPool N BYTES) :
    Avoids f (freeChainLoop fuel head p) := by
  induction fuel generalizing head p with
  | zero => exact .unmeasured hf id
  | succ fuel ih =>
    cases head with
    | none => exact .ok _
    | some handle =>
      refine .bind (p.takeNext_avoids hf handle) fun (next, p) _ => ?_
      exact .bind (p.free_avoids hf handle) fun p _ => ih next p

end PacketPool

namespace PacketQueue

theorem link_avoids (q : PacketQueue) (pool : PacketPool N BYTES) (prev next : Option ℕ) :
    Avoids f (q.link pool prev next) := by
  cases prev with
  | none => exact .ok _
  | some prev => exact .bind (pool.setNext_avoids hf prev next) fun _ _ => .ok _

theorem unlink_avoids (q : PacketQueue) (pool : PacketPool N BYTES) (prev : Option ℕ) (handle : ℕ)
    (next : Option ℕ) : Avoids f (q.unlink pool prev handle next) := by
  refine .bind (q.link_avoids hf pool prev next) fun (q, pool) _ => ?_
  dsimp only
  generalize (if q.tail = some handle then { q with tail := prev } else q) = q
  refine .bind (pool.setNext_avoids hf handle none) fun pool _ => ?_
  refine .bind (pool.free_avoids hf handle) fun pool _ => ?_
  split
  · exact .unmeasured hf id
  · exact .ok _

theorem dropExpiredLoop_avoids (now fuel : ℕ) (q : PacketQueue) (pool : PacketPool N BYTES)
    (prev head : Option ℕ) (dropped : ℕ) :
    Avoids f (dropExpiredLoop now fuel q pool prev head dropped) := by
  induction fuel generalizing q pool prev head dropped with
  | zero => exact .unmeasured hf id
  | succ fuel ih =>
    cases head with
    | none => exact .ok _
    | some handle =>
      refine .bind (pool.next_avoids hf handle) fun next _ => ?_
      refine .bind (pool.queuedAt_avoids hf handle) fun queuedAt _ => ?_
      split
      · exact .bind (q.unlink_avoids hf pool prev handle next) fun (q, pool) _ => ih _ _ _ _ _
      · exact ih _ _ _ _ _

theorem dropExpired_avoids (q : PacketQueue) (pool : PacketPool N BYTES) (now : ℕ) :
    Avoids f (q.dropExpired pool now) := dropExpiredLoop_avoids hf now _ q pool _ _ _

theorem push_avoids (q : PacketQueue) (pool : PacketPool N BYTES) (packetType : MessageType)
    (packet : Bytes) (now : ℕ) : Avoids f (q.push pool packetType packet now) := by
  rw [push]
  split
  · exact .ok _
  refine .bind (pool.alloc_avoids hf packetType packet now) fun (handle, pool) _ => ?_
  cases handle with
  | none => exact .ok _
  | some handle => exact .bind (q.link_avoids hf pool q.tail _) fun _ _ => .ok _

theorem requeue_avoids (q : PacketQueue) (pool : PacketPool N BYTES) (handle : ℕ) :
    Avoids f (q.requeue pool handle) := by
  rw [requeue]
  split
  · exact .bind (pool.free_avoids hf handle) fun _ _ => .ok _
  · exact .bind (pool.setNext_avoids hf handle q.head) fun _ _ => .ok _

theorem dequeue_avoids (q : PacketQueue) (pool : PacketPool N BYTES) : Avoids f (q.dequeue pool) := by
  rw [dequeue]
  split
  · exact .ok _
  · refine .bind (pool.takeNext_avoids hf _) fun (next, pool) _ => ?_
    dsimp only
    split
    · exact .unmeasured hf id
    · exact .ok _

theorem clear_avoids (q : PacketQueue) (pool : PacketPool N BYTES) : Avoids f (q.clear pool) :=
  .bind (PacketPool.freeChainLoop_avoids hf _ _ pool) fun _ _ => .ok _

end PacketQueue

end Measured

end Tendrilix
