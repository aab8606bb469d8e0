import Tendrilix.Bytes
import Tendrilix.IpNet

/-!
# Addresses of IP packets
-/

namespace Tendrilix.IpPacket

open Bytes

def ipv4MinHeaderSize : ℕ := 20

def ipv6MinHeaderSize : ℕ := 40

def version (packet : Bytes) : ℕ := packet.head?.elim 0 (·.toNat / 16)

def ipv4HeaderLen (packet : Bytes) : ℕ := packet.head?.elim 0 (·.toNat % 16) * 4

def validIpv4HeaderLen (packet : Bytes) : Option ℕ :=
  if packet.length < ipv4MinHeaderSize then none
  else
    let headerLen := ipv4HeaderLen packet
    if headerLen < ipv4MinHeaderSize ∨ packet.length < headerLen then none else some headerLen

def address (v4Off v6Off : ℕ) (packet : Bytes) : Option IpAddr :=
  if packet = [] then none
  else if version packet = 4 ∧ (validIpv4HeaderLen packet).isSome then
    some (.v4 (BitVec.ofNat 32 (ofBe (slice packet v4Off (v4Off + 4)))))
  else if version packet = 6 ∧ ipv6MinHeaderSize ≤ packet.length then
    some (.v6 (BitVec.ofNat 128 (ofBe (slice packet v6Off (v6Off + 16)))))
  else none

def srcAddress (packet : Bytes) : Option IpAddr := address 12 8 packet

def dstAddress (packet : Bytes) : Option IpAddr := address 16 24 packet

end Tendrilix.IpPacket
