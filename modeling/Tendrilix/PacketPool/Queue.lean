import Tendrilix.PacketPool.Model

/-!
# A tunnel's pending queue

A tunnel keeps the two ends and the length of its queue; the cells are in the shared pool.
-/

namespace Tendrilix

open Noise (MessageType)

def maxPendingPackets : ℕ := 8

def pendingPacketTtl : ℕ := 30 * 1000000000

abbrev PacketQueue := IntrusiveQueue.Queue ℕ

namespace PacketQueue

variable {N BYTES : ℕ}

def link (q : PacketQueue) (pool : PacketPool N BYTES) (prev next : Option ℕ) :
    Call (PacketQueue × PacketPool N BYTES) :=
  match prev with
  | some prev => do
    let pool ← pool.setNext prev next
    return (q, pool)
  | none => .ok ({ q with head := next }, pool)

def unlink (q : PacketQueue) (pool : PacketPool N BYTES) (prev : Option ℕ) (handle : ℕ)
    (next : Option ℕ) : Call (PacketQueue × PacketPool N BYTES) := do
  let (q, pool) ← q.link pool prev next
  let q := if q.tail = some handle then { q with tail := prev } else q
  let pool ← pool.setNext handle none
  let pool ← pool.free handle
  if q.len = 0 then .error .arithmeticOverflow
  else return ({ q with len := q.len - 1 }, pool)

def dropExpiredLoop (now : ℕ) : ℕ → PacketQueue → PacketPool N BYTES → Option ℕ → Option ℕ → ℕ →
    Call (ℕ × PacketQueue × PacketPool N BYTES)
  | 0, _, _, _, _, _ => .error .diverged
  | _ + 1, q, pool, _, none, dropped => .ok (dropped, q, pool)
  | fuel + 1, q, pool, prev, some handle, dropped => do
    let next ← pool.next handle
    let queuedAt ← pool.queuedAt handle
    if pendingPacketTtl ≤ now - queuedAt then
      let (q, pool) ← q.unlink pool prev handle next
      dropExpiredLoop now fuel q pool prev next (dropped + 1)
    else dropExpiredLoop now fuel q pool (some handle) next dropped

def dropExpired (q : PacketQueue) (pool : PacketPool N BYTES) (now : ℕ) :
    Call (ℕ × PacketQueue × PacketPool N BYTES) :=
  dropExpiredLoop now (N + 1) q pool none q.head 0

def push (q : PacketQueue) (pool : PacketPool N BYTES) (packetType : MessageType) (packet : Bytes)
    (now : ℕ) : Call (PacketQueue × PacketPool N BYTES) :=
  if maxPendingPackets ≤ q.len then .ok (q, pool)
  else do
    let (handle, pool) ← pool.alloc packetType packet now
    match handle with
    | none => return (q, pool)
    | some handle =>
      let (q, pool) ← q.link pool q.tail (some handle)
      return ({ q with tail := some handle, len := q.len + 1 }, pool)

def requeue (q : PacketQueue) (pool : PacketPool N BYTES) (handle : ℕ) :
    Call (PacketQueue × PacketPool N BYTES) :=
  if maxPendingPackets ≤ q.len then do
    let pool ← pool.free handle
    return (q, pool)
  else do
    let pool ← pool.setNext handle q.head
    return ({ head := some handle, tail := q.tail.or (some handle), len := q.len + 1 }, pool)

def dequeue (q : PacketQueue) (pool : PacketPool N BYTES) :
    Call (Option ℕ × PacketQueue × PacketPool N BYTES) :=
  match q.head with
  | none => .ok (none, q, pool)
  | some handle => do
    let (next, pool) ← pool.takeNext handle
    let tail := if next.isNone then none else q.tail
    if q.len = 0 then .error .arithmeticOverflow
    else return (some handle, { head := next, tail := tail, len := q.len - 1 }, pool)

def clear (q : PacketQueue) (pool : PacketPool N BYTES) :
    Call (PacketQueue × PacketPool N BYTES) := do
  let pool ← pool.freeChain q.head
  return ({}, pool)

end PacketQueue

end Tendrilix
