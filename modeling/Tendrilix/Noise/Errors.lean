import Tendrilix.Fault

/-!
# Protocol errors and session limits
-/

namespace Tendrilix.Noise

inductive WireGuardError
  | destinationBufferTooSmall
  | unexpectedPacket
  | wrongIndex
  | wrongKey
  | wrongTimestamp
  | invalidMac
  | invalidAeadTag
  | invalidCounter
  | duplicateCounter
  | invalidPacket
  | noCurrentSession
  | connectionExpired
  | underLoad
  deriving DecidableEq, Repr

/-- `Result<T, WireGuardError>` of the source. -/
abbrev Outcome (α : Type) := Except WireGuardError α

def rejectAfterMessages : ℕ := u64Max - (1 <<< 16) - 1

theorem rejectAfterMessages_eq : rejectAfterMessages = 2 ^ 64 - 2 ^ 16 - 2 := by
  decide

end Tendrilix.Noise
