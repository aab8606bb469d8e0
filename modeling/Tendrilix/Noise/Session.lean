import Tendrilix.Limits
import Tendrilix.Noise.CounterValidator
import Tendrilix.Noise.Crypto
import Tendrilix.Noise.Packet

/-!
# Transport sessions

A destination buffer is represented by its length: what a call writes is the returned slice.
-/

namespace Tendrilix.Noise

open Bytes

def dataOffset : ℕ := 16

def aeadSize : ℕ := 16

structure Session where
  receivingIndex : ℕ
  sendingIndex : ℕ
  receivingKey : Bytes
  sendingKey : Bytes
  sendingKeyCounter : ℕ := 0
  receivingKeyCounter : ReceivingKeyCounterValidator := {}
  deriving DecidableEq

namespace Session

def new (localIndex peerIndex : ℕ) (receivingKey sendingKey : Bytes) : Session where
  receivingIndex := localIndex
  sendingIndex := peerIndex
  receivingKey := receivingKey
  sendingKey := sendingKey

def localIndex (s : Session) : ℕ := s.receivingIndex

/-- Returns an error when the counter is not good to use. -/
def receivingCounterQuickCheck (s : Session) (counter : ℕ) : Call (Outcome Unit) :=
  s.receivingKeyCounter.willAccept counter

def receivingCounterMark (s : Session) (counter : ℕ) : Call (Outcome Unit × Session) := do
  let (ret, v) ← s.receivingKeyCounter.markDidReceive counter
  match ret with
  | .ok () =>
    let receiveCnt ← addU64 v.receiveCnt 1
    return (.ok (), { s with receivingKeyCounter := { v with receiveCnt := receiveCnt } })
  | .error e => return (.error e, { s with receivingKeyCounter := v })

/-- Plaintext is padded to a 16-byte boundary unless that would exceed the MTU. -/
def paddedLen (len : ℕ) : ℕ :=
  if len = 0 then 0
  else
    let candidate := (len + 15) / 16 * 16
    if candidate ≤ mtu then candidate else len

variable (K : Crypto)

def formatPacketDataWithType (s : Session) (packetType : MessageType) (src : Bytes) (dstLen : ℕ) :
    Call (Option Bytes × Session) :=
  if dstLen < dataOffset + paddedLen src.length + aeadSize then
    .error .destinationBufferTooSmall
  else if rejectAfterMessages ≤ s.sendingKeyCounter then .ok (none, s)
  else
    let counter := s.sendingKeyCounter
    let plaintext := src ++ zeros (paddedLen src.length - src.length)
    let (ciphertext, tag) := K.encrypt s.sendingKey (nonceOf counter) [] plaintext
    .ok (some (toLe 4 packetType ++ toLe 4 s.sendingIndex ++ toLe 8 counter ++ ciphertext ++ tag),
      { s with sendingKeyCounter := counter + 1 })

def receivePacketData (s : Session) (packet : Data) (dstLen : ℕ) :
    Call (Outcome Bytes × Session) :=
  if dstLen < packet.encryptedEncapsulatedPacket.length then .error .destinationBufferTooSmall
  else if packet.receiverIdx ≠ s.receivingIndex then .ok (.error .wrongIndex, s)
  else if rejectAfterMessages ≤ packet.counter then .ok (.error .invalidCounter, s)
  else do
    match ← s.receivingCounterQuickCheck packet.counter with
    | .error e => return (.error e, s)
    | .ok () =>
      let data := packet.encryptedEncapsulatedPacket
      if data.length < aeadSize then .error .arithmeticOverflow
      else
        let ciphertext := data.take (data.length - aeadSize)
        let tag := data.drop (data.length - aeadSize)
        match K.decrypt s.receivingKey (nonceOf packet.counter) [] ciphertext tag with
        | none => return (.error .invalidAeadTag, s)
        | some ret =>
          let (marked, s) ← s.receivingCounterMark packet.counter
          match marked with
          | .error e => return (.error e, s)
          | .ok () => return (.ok ret, s)

end Session

end Tendrilix.Noise
