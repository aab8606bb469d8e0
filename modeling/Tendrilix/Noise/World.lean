import Tendrilix.Noise.Session
import Tendrilix.PacketPool.Model

/-!
# What tunnels share

Tunnels of a device share the clock, the random generator and the packet pool. The world carries
them with a record of the packets sealed under transport keys and of the sessions established so
far, which the source does not keep and the results about whole runs are stated on.
-/

namespace Tendrilix.Noise

/-- The keys that a completed handshake derives. -/
structure ResponseKeys where
  responseKey : Bytes
  /-- The hash that the empty payload of the response is bound to. -/
  responseHash : Bytes
  receivingKey : Bytes
  sendingKey : Bytes

/-- A completed handshake, named by the local ephemeral key that was drawn for it. -/
structure Established (K : Crypto) extends ResponseKeys where
  ephemeral : K.Secret

structure World (K : Crypto) (N BYTES : ℕ) where
  clock : ℕ → ℕ
  secrets : ℕ → K.Secret
  pool : PacketPool N BYTES
  reads : ℕ := 0
  draws : ℕ := 0
  sealed : List (Bytes × ℕ) := []
  established : List (Established K) := []

namespace World

variable {K : Crypto} {N BYTES : ℕ}

/-- `Instant::now()`, in nanoseconds. -/
def now (w : World K N BYTES) : ℕ × World K N BYTES :=
  (w.clock w.reads, { w with reads := w.reads + 1 })

def drawSecret (w : World K N BYTES) : K.Secret × World K N BYTES :=
  (w.secrets w.draws, { w with draws := w.draws + 1 })

def establish (w : World K N BYTES) (ephemeral : K.Secret) (keys : ResponseKeys) :
    World K N BYTES :=
  { w with established := ⟨keys, ephemeral⟩ :: w.established }

/-- `format_packet_data_with_type`, with a record of the key and counter that were used. -/
def sealPacket (w : World K N BYTES) (s : Session) (packetType : MessageType) (src : Bytes)
    (dstLen : ℕ) : Call (Option Bytes × Session × World K N BYTES) := do
  let (packet, s') ← s.formatPacketDataWithType K packetType src dstLen
  match packet with
  | some packet =>
    return (some packet, s', { w with sealed := (s.sendingKey, s.sendingKeyCounter) :: w.sealed })
  | none => return (none, s', w)

/-- `format_packet_data` -/
def sealData (w : World K N BYTES) (s : Session) (src : Bytes) (dstLen : ℕ) :
    Call (Option Bytes × Session × World K N BYTES) :=
  w.sealPacket s MessageType.data src dstLen

end World

end Tendrilix.Noise
