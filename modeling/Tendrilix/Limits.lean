import Mathlib.Tactic

/-!
# Sizes and memory profiles
-/

namespace Tendrilix

def packetOverhead : ℕ := 32

def mtu : ℕ := 1280

def envelopeHeaderSize : ℕ := 36

def maxPacketSize : ℕ := mtu + 2 * packetOverhead + envelopeHeaderSize

/-- The build's memory profile. The fixed profiles have no allocator. -/
inductive Profile
  | alloc
  | tiny
  | small
  | medium
  | large
  deriving DecidableEq, Repr

namespace Profile

/-- `none` in the heap build, whose peer table grows. -/
def maxPeers : Profile → Option ℕ
  | alloc => none
  | tiny => some 4
  | small => some 8
  | medium => some 16
  | large => some 32

def maxAllowedIpsPerPeer : Profile → Option ℕ
  | alloc => none
  | tiny => some 2
  | small => some 2
  | medium => some 4
  | large => some 8

end Profile

end Tendrilix
