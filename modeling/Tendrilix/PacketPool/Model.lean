import Tendrilix.Fault
import Tendrilix.IntrusiveQueue
import Tendrilix.Limits
import Tendrilix.Noise.Packet

/-!
# The shared packet pool

The pool has two builds. The heap build keeps payloads in the descriptors of a growable slot
table with a free list; the fixed build keeps them in a byte arena and looks for a gap. `N` is
the number of descriptors and `BYTES` the limit on queued bytes. A packet handle is the number of
its descriptor.
-/

namespace Tendrilix

open Noise (MessageType)
open IntrusiveQueue

/-- What a descriptor holds besides its link. -/
structure QueuedPacket where
  queuedAt : ℕ
  packetType : MessageType
  data : Bytes
  deriving DecidableEq

abbrev PacketSlot := Cell ℕ QueuedPacket

/-- The heap build. The top of the free list is its head. -/
structure HeapPool (N BYTES : ℕ) where
  slots : List (Option PacketSlot) := []
  free : List ℕ := []
  usedBytes : ℕ := 0

namespace HeapPool

variable {N BYTES : ℕ}

def freeSlot (p : HeapPool N BYTES) : Option (ℕ × HeapPool N BYTES) :=
  match p.free with
  | handle :: free => some (handle, { p with free := free })
  | [] => if p.slots.length < N then some (p.slots.length, p) else none

def alloc (p : HeapPool N BYTES) (packetType : MessageType) (packet : Bytes) (queuedAt : ℕ) :
    Call (Option ℕ × HeapPool N BYTES) :=
  if maxPacketSize < packet.length ∨ BYTES < p.usedBytes + packet.length then .ok (none, p)
  else
    match p.freeSlot with
    | none => .ok (none, p)
    | some (handle, p) =>
      let slot : PacketSlot := ⟨none, queuedAt, packetType, packet⟩
      let usedBytes := p.usedBytes + packet.length
      if handle = p.slots.length then
        .ok (some handle, { p with slots := p.slots ++ [some slot], usedBytes := usedBytes })
      else if handle < p.slots.length then
        .ok (some handle, { p with slots := p.slots.set handle (some slot), usedBytes := usedBytes })
      else .error .indexOutOfBounds

def slot (p : HeapPool N BYTES) (handle : ℕ) : Call PacketSlot :=
  match p.slots[handle]? with
  | some (some s) => .ok s
  | _ => .error .packetHandleNotLive

def setSlot (p : HeapPool N BYTES) (handle : ℕ) (s : PacketSlot) : HeapPool N BYTES :=
  { p with slots := p.slots.set handle (some s) }

def release (p : HeapPool N BYTES) (handle : ℕ) : Call (HeapPool N BYTES) :=
  match p.slots[handle]? with
  | none => .error .packetHandleOutOfTable
  | some none => .error .packetHandleNotLive
  | some (some s) =>
    if p.usedBytes < s.value.data.length then .error .arithmeticOverflow
    else
      .ok { slots := p.slots.set handle none
            free := handle :: p.free
            usedBytes := p.usedBytes - s.value.data.length }

end HeapPool

structure FixedSlot where
  next : Option ℕ := none
  offset : ℕ := 0
  len : ℕ := 0
  queuedAt : ℕ := 0
  packetType : MessageType := 0
  used : Bool := false
  deriving DecidableEq

/-- The fixed build: a table of `N` descriptors over an arena of `BYTES` bytes. -/
structure FixedPool (N BYTES : ℕ) where
  slots : List FixedSlot := List.replicate N {}
  arena : Bytes := Bytes.zeros BYTES
  length_slots : slots.length = N := by simp
  length_arena : arena.length = BYTES := by simp

namespace FixedPool

variable {N BYTES : ℕ}

def freeSlot (p : FixedPool N BYTES) : Option ℕ :=
  p.slots.findIdx? fun slot => !slot.used

/-- The slot that stands in the way of `len` bytes from `start` on. -/
def blocking (p : FixedPool N BYTES) (start len : ℕ) : Option FixedSlot :=
  (p.slots.filter (·.used)).find? fun slot =>
    start < slot.offset + slot.len && slot.offset < start + len

def findGapLoop (p : FixedPool N BYTES) (len : ℕ) : ℕ → ℕ → Call (Option ℕ)
  | 0, _ => .error .diverged
  | fuel + 1, start =>
    if BYTES < start + len then .ok none
    else
      match p.blocking start len with
      | some slot => findGapLoop p len fuel (slot.offset + slot.len)
      | none => .ok (some start)

/-- Each turn moves `start` forward, and it never passes the end of the arena. -/
def findGap (p : FixedPool N BYTES) (len : ℕ) : Call (Option ℕ) := findGapLoop p len (BYTES + 2) 0

def setSlot (p : FixedPool N BYTES) (handle : ℕ) (s : FixedSlot) :
    FixedPool N BYTES where
  slots := p.slots.set handle s
  arena := p.arena
  length_slots := by rw [List.length_set, p.length_slots]
  length_arena := p.length_arena

/-- `copy_from_slice` into the arena, which panics outside of it. -/
def write (p : FixedPool N BYTES) (offset : ℕ) (packet : Bytes) : Call (FixedPool N BYTES) :=
  if h : offset + packet.length ≤ BYTES then
    .ok { p with
          arena := Bytes.overwrite p.arena offset packet
          length_arena := by
            rw [Bytes.length_overwrite (by rw [p.length_arena]; exact h), p.length_arena] }
  else .error .indexOutOfBounds

def slot (p : FixedPool N BYTES) (handle : ℕ) : Call FixedSlot :=
  match p.slots[handle]? with
  | some s => .ok s
  | none => .error .indexOutOfBounds

def alloc (p : FixedPool N BYTES) (packetType : MessageType) (packet : Bytes) (queuedAt : ℕ) :
    Call (Option ℕ × FixedPool N BYTES) :=
  if maxPacketSize < packet.length ∨ BYTES < packet.length then .ok (none, p)
  else
    match p.freeSlot with
    | none => .ok (none, p)
    | some handle => do
      match ← p.findGap packet.length with
      | none => return (none, p)
      | some offset =>
        let p ← p.write offset packet
        return (some handle, p.setSlot handle
          { next := none, offset := offset, len := packet.length, queuedAt := queuedAt,
            packetType := packetType, used := true })

def get (p : FixedPool N BYTES) (handle : ℕ) : Call (MessageType × Bytes) := do
  let s ← p.slot handle
  if s.offset + s.len ≤ BYTES then
    return (s.packetType, Bytes.slice p.arena s.offset (s.offset + s.len))
  else .error .indexOutOfBounds

def release (p : FixedPool N BYTES) (handle : ℕ) : Call (FixedPool N BYTES) := do
  let s ← p.slot handle
  return p.setSlot handle { s with next := none, offset := 0, len := 0, used := false }

end FixedPool

inductive PacketPool (N BYTES : ℕ)
  | heap (p : HeapPool N BYTES)
  | fixed (p : FixedPool N BYTES)

namespace PacketPool

variable {N BYTES : ℕ}

def new (N BYTES : ℕ) : Profile → PacketPool N BYTES
  | .alloc => .heap {}
  | _ => .fixed {}

def alloc (packetType : MessageType) (packet : Bytes) (queuedAt : ℕ) :
    PacketPool N BYTES → Call (Option ℕ × PacketPool N BYTES)
  | .heap p => do
    let (handle, p) ← p.alloc packetType packet queuedAt
    return (handle, .heap p)
  | .fixed p => do
    let (handle, p) ← p.alloc packetType packet queuedAt
    return (handle, .fixed p)

def queuedAt (handle : ℕ) : PacketPool N BYTES → Call ℕ
  | .heap p => do
    let s ← p.slot handle
    return s.value.queuedAt
  | .fixed p => do
    let s ← p.slot handle
    return s.queuedAt

def get (handle : ℕ) : PacketPool N BYTES → Call (MessageType × Bytes)
  | .heap p => do
    let s ← p.slot handle
    return (s.value.packetType, s.value.data)
  | .fixed p => p.get handle

def next (handle : ℕ) : PacketPool N BYTES → Call (Option ℕ)
  | .heap p => do
    let s ← p.slot handle
    return s.next
  | .fixed p => do
    let s ← p.slot handle
    return s.next

def setNext (handle : ℕ) (next : Option ℕ) :
    PacketPool N BYTES → Call (PacketPool N BYTES)
  | .heap p => do
    let s ← p.slot handle
    return .heap (p.setSlot handle { s with next := next })
  | .fixed p => do
    let s ← p.slot handle
    return .fixed (p.setSlot handle { s with next := next })

def takeNext (handle : ℕ) (p : PacketPool N BYTES) :
    Call (Option ℕ × PacketPool N BYTES) := do
  let next ← p.next handle
  let p ← p.setNext handle none
  return (next, p)

def free (handle : ℕ) : PacketPool N BYTES → Call (PacketPool N BYTES)
  | .heap p => do
    let p ← p.release handle
    return .heap p
  | .fixed p => do
    let p ← p.release handle
    return .fixed p

def freeChainLoop : ℕ → Option ℕ → PacketPool N BYTES → Call (PacketPool N BYTES)
  | 0, _, _ => .error .diverged
  | _ + 1, none, p => .ok p
  | fuel + 1, some handle, p => do
    let (head, p) ← p.takeNext handle
    let p ← p.free handle
    freeChainLoop fuel head p

/-- A chain has at most one cell for each of the `N` descriptors. -/
def freeChain (head : Option ℕ) (p : PacketPool N BYTES) : Call (PacketPool N BYTES) :=
  freeChainLoop (N + 1) head p

end PacketPool

end Tendrilix
