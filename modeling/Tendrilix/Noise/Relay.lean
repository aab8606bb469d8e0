import Tendrilix.Limits
import Tendrilix.Noise.Packet

/-!
# Relay envelopes

The plaintext of a relay packet is an envelope: a version, a hop limit, the length of the inner
packet, the destination's public key, and the inner packet. Bytes behind the inner packet are
padding.
-/

namespace Tendrilix

open Bytes

/-- `serialization::KeyBytes` -/
structure KeyBytes where
  bytes : Bytes
  length_eq : bytes.length = 32
  deriving DecidableEq

/-- The prime of the field that the coordinates of public keys are in. -/
def fieldPrime : ℕ := 2 ^ 255 - 19

/-- `x25519_dalek::PublicKey` as its comparison and its hash see it. They look at the coordinate that
the bytes encode, so a key is kept in the one reduced encoding of its coordinate. -/
structure PublicKey where
  bytes : Bytes
  length_eq : bytes.length = 32
  reduced : ofLe bytes < fieldPrime
  deriving DecidableEq

namespace KeyBytes

def ofBytes (bytes : Bytes) : Option KeyBytes :=
  if h : bytes.length = 32 then some ⟨bytes, h⟩ else none

/-- The highest bit does not count. -/
def coordinate (key : KeyBytes) : ℕ := ofLe key.bytes % 2 ^ 255 % fieldPrime

theorem coordinate_lt (key : KeyBytes) : key.coordinate < fieldPrime :=
  Nat.mod_lt _ (by decide)

theorem ofLe_toLe_coordinate (key : KeyBytes) : ofLe (toLe 32 key.coordinate) = key.coordinate :=
  ofLe_toLe (key.coordinate_lt.trans (by decide))

/-- `impl From<KeyBytes> for PublicKey` -/
def toPublicKey (key : KeyBytes) : PublicKey where
  bytes := toLe 32 key.coordinate
  length_eq := length_toLe _ _
  reduced := key.ofLe_toLe_coordinate.symm ▸ key.coordinate_lt

instance : Coe KeyBytes PublicKey := ⟨toPublicKey⟩

/-- Two encodings are one key if their coordinates agree. -/
theorem toPublicKey_eq_iff {key key' : KeyBytes} :
    (key : PublicKey) = key' ↔ key.coordinate = key'.coordinate := by
  constructor
  · intro h
    rw [toPublicKey, toPublicKey, PublicKey.mk.injEq] at h
    rw [← key.ofLe_toLe_coordinate, h, key'.ofLe_toLe_coordinate]
  · intro h
    rw [toPublicKey, toPublicKey, PublicKey.mk.injEq, h]

end KeyBytes

namespace PublicKey

def ofBytes (bytes : Bytes) : Option PublicKey := (KeyBytes.ofBytes bytes).map KeyBytes.toPublicKey

/-- `impl From<PublicKey> for KeyBytes` -/
def toKeyBytes (key : PublicKey) : KeyBytes := ⟨key.bytes, key.length_eq⟩

theorem toPublicKey_toKeyBytes (key : PublicKey) : (key.toKeyBytes : PublicKey) = key := by
  have hcoordinate : key.toKeyBytes.coordinate = ofLe key.bytes := by
    have hlt : ofLe key.bytes < 2 ^ 255 := key.reduced.trans (by decide)
    rw [KeyBytes.coordinate, toKeyBytes, Nat.mod_eq_of_lt hlt, Nat.mod_eq_of_lt key.reduced]
  cases key with
  | mk bytes length_eq reduced =>
    rw [KeyBytes.toPublicKey, PublicKey.mk.injEq, hcoordinate]
    exact toLe_ofLe length_eq

end PublicKey

namespace Noise.Relay

def envelopeVersion : UInt8 := 1

def defaultHopLimit : UInt8 := 8

inductive Error
  | bufferTooSmall
  | tooShort
  | unsupportedVersion (version : UInt8)
  | hopLimitExhausted
  | innerPacketTooLarge
  | tooShortForType
  | invalidMessageType (messageType : MessageType)
  deriving DecidableEq

structure Envelope where
  bytes : Bytes
  innerLen : ℕ
  fits : envelopeHeaderSize + innerLen ≤ bytes.length

namespace Envelope

def parse (bytes : Bytes) : Except Error Envelope :=
  if bytes.length < envelopeHeaderSize then .error .tooShort
  else
    let version := bytes.getD 0 0
    if version ≠ envelopeVersion then .error (.unsupportedVersion version)
    else if bytes.getD 1 0 = 0 then .error .hopLimitExhausted
    else
      let innerLen := ofLe (slice bytes 2 4)
      if h : envelopeHeaderSize + innerLen ≤ bytes.length then .ok ⟨bytes, innerLen, h⟩
      else .error .tooShort

def hopLimit (e : Envelope) : UInt8 := e.bytes.getD 1 0

def destination (e : Envelope) : PublicKey :=
  KeyBytes.toPublicKey ⟨slice e.bytes 4 envelopeHeaderSize, by
    have := e.fits
    simp only [slice, envelopeHeaderSize, List.length_take, List.length_drop] at *
    omega⟩

def innerPacket (e : Envelope) : Bytes :=
  slice e.bytes envelopeHeaderSize (envelopeHeaderSize + e.innerLen)

def decrementHopLimit (e : Envelope) : Except Error Envelope :=
  if e.hopLimit ≤ 1 then .error .hopLimitExhausted
  else .ok ⟨e.bytes.set 1 (e.hopLimit - 1), e.innerLen, by rw [List.length_set]; exact e.fits⟩

end Envelope

/-- `dstLen` is the length of the buffer the envelope is written to. -/
def buildEnvelope (dstLen : ℕ) (destination : PublicKey) (innerPacket : Bytes) :
    Except Error Bytes :=
  if 65535 < innerPacket.length then .error .innerPacketTooLarge
  else if dstLen < envelopeHeaderSize + innerPacket.length then .error .bufferTooSmall
  else .ok (envelopeVersion :: defaultHopLimit :: (toLe 2 innerPacket.length ++
    (destination.bytes ++ innerPacket)))

def validateInnerPacket (inner : Bytes) : Except Error Unit :=
  if inner.length < 4 then .error .tooShortForType
  else
    let messageType := ofLe (slice inner 0 4)
    if messageType = MessageType.handshakeInit ∧ inner.length = handshakeInitSz ∨
        messageType = MessageType.handshakeResp ∧ inner.length = handshakeRespSz ∨
        messageType = MessageType.cookieReply ∧ inner.length = cookieReplySz ∨
        messageType = MessageType.data ∧ dataOverheadSz ≤ inner.length then .ok ()
    else if messageType = MessageType.handshakeInit ∨ messageType = MessageType.handshakeResp ∨
        messageType = MessageType.cookieReply ∨ messageType = MessageType.data then
      .error .tooShortForType
    else .error (.invalidMessageType messageType)

end Noise.Relay

end Tendrilix
