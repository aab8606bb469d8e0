import Tendrilix.Noise.World

/-!
# TAI64N timestamps
-/

namespace Tendrilix.Noise

open Bytes

variable {K : Crypto} {N BYTES : ℕ}

def nanosPerSec : ℕ := 1000000000

structure TimeStamper where
  instantAtStart : ℕ
  unixTimeSecsAtStart : ℕ

namespace TimeStamper

def tai64Base : ℕ := 0x400000000000000a

/-- Nanoseconds are truncated to multiples of this. -/
def whitener : ℕ := 0x01000000

def stampAt (t : TimeStamper) (now : ℕ) : Call Bytes := do
  let elapsed := now - t.instantAtStart
  let start ← addU64 tai64Base t.unixTimeSecsAtStart
  let seconds ← addU64 start (elapsed / nanosPerSec)
  let nanoseconds := elapsed % nanosPerSec / whitener * whitener
  return toBe 8 seconds ++ toBe 4 nanoseconds

def stamp (t : TimeStamper) (w : World K N BYTES) : Call (Bytes × World K N BYTES) := do
  let (now, w) := w.now
  let timestamp ← t.stampAt now
  return (timestamp, w)

end TimeStamper

structure Tai64N where
  secs : ℕ := 0
  nano : ℕ := 0
  deriving DecidableEq

namespace Tai64N

def parse (buf : Bytes) : Tai64N where
  secs := ofBe (slice buf 0 8)
  nano := ofBe (slice buf 8 12)

/-- Whether `t` is chronologically after `other`. -/
def after (t other : Tai64N) : Bool :=
  other.secs < t.secs || (t.secs == other.secs && other.nano < t.nano)

theorem after_iff {t other : Tai64N} :
    t.after other = true ↔ other.secs < t.secs ∨ t.secs = other.secs ∧ other.nano < t.nano := by
  simp [after]

theorem not_after_self (t : Tai64N) : t.after t = false := by
  simp [after]

theorem after_trans {a b c : Tai64N} (hab : b.after a = true) (hbc : c.after b = true) :
    c.after a = true := by
  rw [after_iff] at *
  omega

theorem not_after_of_after {a b c : Tai64N} (hab : b.after a = false) (hac : c.after a = true) :
    b.after c = false := by
  by_contra hbc
  rw [after_trans hac (eq_true_of_ne_false hbc)] at hab
  cases hab

end Tai64N

end Tendrilix.Noise
