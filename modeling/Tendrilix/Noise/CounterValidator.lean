import Tendrilix.Noise.Errors

/-!
# The receiving-key counter validator

The bitmap of received packets is indexed by the counter modulo `nBits`. Additions on counters
are the checked additions of `u64`.
-/

namespace Tendrilix.Noise

def wordSize : ℕ := 64

def nWords : ℕ := 4

def nBits : ℕ := wordSize * nWords

structure ReceivingKeyCounterValidator where
  next : ℕ := 0
  receiveCnt : ℕ := 0
  bitmap : Vector (BitVec 64) 4 := Vector.replicate 4 0#64
  deriving DecidableEq

namespace ReceivingKeyCounterValidator

def wordOf (idx : ℕ) : Fin 4 := ⟨idx % nBits / wordSize, by simp only [nBits, wordSize, nWords]; omega⟩

def bitOf (idx : ℕ) : ℕ := idx % nBits % wordSize

def setBit (v : ReceivingKeyCounterValidator) (idx : ℕ) : ReceivingKeyCounterValidator :=
  { v with bitmap := v.bitmap.set (wordOf idx) (v.bitmap.get (wordOf idx) ||| 1#64 <<< bitOf idx) }

def clearBit (v : ReceivingKeyCounterValidator) (idx : ℕ) : ReceivingKeyCounterValidator :=
  { v with
    bitmap := v.bitmap.set (wordOf idx) (v.bitmap.get (wordOf idx) &&& ~~~(1#64 <<< bitOf idx)) }

def clearWord (v : ReceivingKeyCounterValidator) (idx : ℕ) : ReceivingKeyCounterValidator :=
  { v with bitmap := v.bitmap.set (wordOf idx) 0#64 }

def checkBit (v : ReceivingKeyCounterValidator) (idx : ℕ) : Bool :=
  (v.bitmap.get (wordOf idx) >>> bitOf idx) &&& 1#64 == 1#64

def willAccept (v : ReceivingKeyCounterValidator) (counter : ℕ) : Call (Outcome Unit) :=
  if v.next ≤ counter then .ok (.ok ())
  else do
    let edge ← addU64 counter nBits
    if edge < v.next then return .error .invalidCounter
    if !v.checkBit counter then return .ok ()
    return .error .duplicateCounter

def clearToWord (counter : ℕ) :
    ℕ → ReceivingKeyCounterValidator → ℕ → Call (ReceivingKeyCounterValidator × ℕ)
  | 0, _, _ => .error .diverged
  | fuel + 1, v, i =>
    if i % wordSize ≠ 0 ∧ i < counter then do
      let i' ← addU64 i 1
      clearToWord counter fuel (v.clearBit i) i'
    else .ok (v, i)

def clearWords (counter : ℕ) :
    ℕ → ReceivingKeyCounterValidator → ℕ → Call (ReceivingKeyCounterValidator × ℕ)
  | 0, _, _ => .error .diverged
  | fuel + 1, v, i => do
    let edge ← addU64 i wordSize
    if edge < counter then
      let i' ← addU64 i wordSize
      clearWords counter fuel (v.clearWord i) (BitVec.ofNat 64 i' &&& (0#64 - 64#64)).toNat
    else return (v, i)

def clearRest (counter : ℕ) :
    ℕ → ReceivingKeyCounterValidator → ℕ → Call ReceivingKeyCounterValidator
  | 0, _, _ => .error .diverged
  | fuel + 1, v, i =>
    if i < counter then do
      let i' ← addU64 i 1
      clearRest counter fuel (v.clearBit i) i'
    else .ok v

/-- The skipped counters are marked unused. None of the loops takes more turns than there are
counters left to skip. -/
def clearSkipped (v : ReceivingKeyCounterValidator) (counter : ℕ) :
    Call ReceivingKeyCounterValidator :=
  if nBits ≤ counter - v.next then .ok { v with bitmap := v.bitmap.map fun _ => 0#64 }
  else do
    let fuel := counter - v.next + 1
    let (v, i) ← clearToWord counter fuel v v.next
    let (v, i) ← clearWords counter fuel v i
    clearRest counter fuel v i

def markDidReceive (v : ReceivingKeyCounterValidator) (counter : ℕ) :
    Call (Outcome Unit × ReceivingKeyCounterValidator) := do
  let edge ← addU64 counter nBits
  if edge < v.next then return (.error .invalidCounter, v)
  if counter = v.next then
    let next ← addU64 v.next 1
    return (.ok (), { v.setBit counter with next := next })
  if counter < v.next then
    if v.checkBit counter then return (.error .invalidCounter, v)
    return (.ok (), v.setBit counter)
  let v ← v.clearSkipped counter
  let next ← addU64 counter 1
  return (.ok (), { v.setBit counter with next := next })

end ReceivingKeyCounterValidator

end Tendrilix.Noise
