import Tendrilix.Noise.ReplayWindow
import Tendrilix.Noise.World

/-!
# What the session calls do
-/

namespace Tendrilix.Noise

variable {K : Crypto} {N BYTES : ℕ}

theorem ReceivingKeyCounterValidator.markDidReceive_error {v v' : ReceivingKeyCounterValidator}
    {counter : ℕ} {e : WireGuardError} (call : v.markDidReceive counter = .ok (.error e, v')) :
    v' = v := by
  obtain ⟨edge, -, call⟩ := bind_ok_iff.mp call
  split at call
  · cases call
    rfl
  split at call
  · obtain ⟨next, -, call⟩ := bind_ok_iff.mp call
    cases call
  split at call
  · split at call
    · cases call
      rfl
    · cases call
  · obtain ⟨v₁, -, call⟩ := bind_ok_iff.mp call
    obtain ⟨next, -, call⟩ := bind_ok_iff.mp call
    cases call

def Data.Opens (K : Crypto) (key : Bytes) (p : Data) : Prop :=
  ∃ plaintext, K.decrypt key (nonceOf p.counter) []
    (p.encryptedEncapsulatedPacket.take (p.encryptedEncapsulatedPacket.length - aeadSize))
    (p.encryptedEncapsulatedPacket.drop (p.encryptedEncapsulatedPacket.length - aeadSize)) =
      some plaintext

namespace Session

variable {s s' : Session} {p : Data} {dstLen : ℕ}

theorem receivingCounterMark_error {counter : ℕ} {e : WireGuardError}
    (call : s.receivingCounterMark counter = .ok (.error e, s')) : s' = s := by
  obtain ⟨⟨ret, v⟩, hmark, call⟩ := bind_ok_iff.mp call
  cases ret with
  | error e =>
    cases call
    rw [ReceivingKeyCounterValidator.markDidReceive_error hmark]
  | ok u =>
    obtain ⟨receiveCnt, -, call⟩ := bind_ok_iff.mp call
    cases call

theorem receivingCounterMark_ok {counter : ℕ}
    (call : s.receivingCounterMark counter = .ok (.ok (), s')) :
    ∃ v receiveCnt, s.receivingKeyCounter.markDidReceive counter = .ok (.ok (), v) ∧
      s' = { s with receivingKeyCounter := { v with receiveCnt := receiveCnt } } := by
  obtain ⟨⟨ret, v⟩, hmark, call⟩ := bind_ok_iff.mp call
  cases ret with
  | error e => cases call
  | ok u =>
    obtain ⟨receiveCnt, -, call⟩ := bind_ok_iff.mp call
    cases call
    exact ⟨v, receiveCnt, hmark, rfl⟩

theorem receivePacketData_error {e : WireGuardError}
    (call : s.receivePacketData K p dstLen = .ok (.error e, s')) : s' = s := by
  rw [receivePacketData] at call
  split at call
  · cases call
  split at call
  · cases call
    rfl
  split at call
  · cases call
    rfl
  obtain ⟨quick, -, call⟩ := bind_ok_iff.mp call
  cases quick with
  | error e =>
    cases call
    rfl
  | ok u =>
    dsimp only at call
    split at call
    · cases call
    split at call
    · cases call
      rfl
    · obtain ⟨⟨marked, s₁⟩, hmark, call⟩ := bind_ok_iff.mp call
      cases marked with
      | error e =>
        cases call
        exact receivingCounterMark_error hmark
      | ok u => cases call

theorem receivePacketData_ok {plaintext : Bytes}
    (call : s.receivePacketData K p dstLen = .ok (.ok plaintext, s')) :
    p.receiverIdx = s.receivingIndex ∧ p.counter < rejectAfterMessages ∧
      p.Opens K s.receivingKey ∧
      ∃ v receiveCnt, s.receivingKeyCounter.markDidReceive p.counter = .ok (.ok (), v) ∧
        s' = { s with receivingKeyCounter := { v with receiveCnt := receiveCnt } } := by
  rw [receivePacketData] at call
  split at call
  · cases call
  split at call
  · cases call
  rename_i hidx
  split at call
  · cases call
  rename_i hcounter
  obtain ⟨quick, -, call⟩ := bind_ok_iff.mp call
  cases quick with
  | error e => cases call
  | ok u =>
    dsimp only at call
    split at call
    · cases call
    split at call
    · cases call
    · rename_i plain hplain
      obtain ⟨⟨marked, s₁⟩, hmark, call⟩ := bind_ok_iff.mp call
      cases marked with
      | error e => cases call
      | ok u =>
        cases call
        exact ⟨of_not_not hidx, Nat.lt_of_not_le hcounter, ⟨_, hplain⟩, receivingCounterMark_ok hmark⟩

end Session

theorem World.sealPacket_ok {w w' : World K N BYTES} {s s' : Session} {packetType : MessageType}
    {src : Bytes} {dstLen : ℕ} {r : Option Bytes}
    (call : w.sealPacket s packetType src dstLen = .ok (r, s', w')) :
    (r = none ∧ rejectAfterMessages ≤ s.sendingKeyCounter ∧ s' = s ∧ w' = w) ∨
      (∃ packet, r = some packet ∧ s.sendingKeyCounter < rejectAfterMessages ∧
        s' = { s with sendingKeyCounter := s.sendingKeyCounter + 1 } ∧
        w' = { w with sealed := (s.sendingKey, s.sendingKeyCounter) :: w.sealed }) := by
  obtain ⟨⟨packet, s₁⟩, hformat, call⟩ := bind_ok_iff.mp call
  rw [Session.formatPacketDataWithType] at hformat
  split at hformat
  · cases hformat
  split at hformat
  · rename_i hexhausted
    cases hformat
    cases call
    exact .inl ⟨rfl, hexhausted, rfl, rfl⟩
  · rename_i hfresh
    cases hformat
    cases call
    exact .inr ⟨_, rfl, Nat.lt_of_not_le hfresh, rfl, rfl⟩

theorem World.sealPacket_error {w : World K N BYTES} {s : Session} {packetType : MessageType}
    {src : Bytes} {dstLen : ℕ} {f : Fault}
    (call : w.sealPacket s packetType src dstLen = .error f) :
    f = .destinationBufferTooSmall ∧ dstLen < 32 + Session.paddedLen src.length := by
  rcases bind_error_iff.mp call with hformat | ⟨⟨packet, s₁⟩, -, hrest⟩
  · rw [Session.formatPacketDataWithType] at hformat
    split at hformat
    · rename_i hsmall
      cases hformat
      simp only [dataOffset, aeadSize] at hsmall
      exact ⟨rfl, by omega⟩
    · split at hformat <;> cases hformat
  · cases packet <;> cases hrest

end Tendrilix.Noise
