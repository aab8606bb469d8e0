import Tendrilix.PrefixWord

/-!
# IP networks

`Net w` is a CIDR block of one address family. The stored address keeps its host bits; `network`
clears them with the netmask, and `Net.network_eq_mask` connects that netmask to the mask of the
routing trie.
-/

namespace Tendrilix

open PrefixWord

variable {w : ℕ}

structure Net (w : ℕ) where
  addr : BitVec w
  prefixLen : ℕ
  prefixLen_le : prefixLen ≤ w
  deriving DecidableEq

def netmask (w prefixLen : ℕ) : BitVec w :=
  if prefixLen = 0 then 0#w else BitVec.allOnes w <<< (w - prefixLen)

def Net.new (addr : BitVec w) (prefixLen : ℕ) : Option (Net w) :=
  if h : prefixLen ≤ w then some ⟨addr, prefixLen, h⟩ else none

def Net.network (net : Net w) : BitVec w := net.addr &&& netmask w net.prefixLen

theorem Net.network_eq_mask (net : Net w) : net.network = mask net.addr net.prefixLen := by
  have hle := net.prefixLen_le
  apply BitVec.eq_of_getMsbD_eq
  intro i hi
  rw [getMsbD_mask hle, Net.network, netmask, BitVec.getMsbD_and]
  split_ifs with h0
  · simp [h0]
  · rw [BitVec.getMsbD_shiftLeft, BitVec.getMsbD_allOnes, Bool.and_comm]
    congr 1
    apply decide_eq_decide.mpr
    omega

abbrev Ipv4Addr := BitVec 32
abbrev Ipv6Addr := BitVec 128
abbrev Ipv4Net := Net 32
abbrev Ipv6Net := Net 128

inductive IpAddr
  | v4 (addr : Ipv4Addr)
  | v6 (addr : Ipv6Addr)
  deriving DecidableEq

inductive IpNet
  | v4 (net : Ipv4Net)
  | v6 (net : Ipv6Net)
  deriving DecidableEq

namespace IpNet

def new (addr : IpAddr) (prefixLen : ℕ) : Option IpNet :=
  match addr with
  | .v4 a => (Net.new a prefixLen).map .v4
  | .v6 a => (Net.new a prefixLen).map .v6

def prefixLen : IpNet → ℕ
  | .v4 n => n.prefixLen
  | .v6 n => n.prefixLen

def network : IpNet → IpAddr
  | .v4 n => .v4 n.network
  | .v6 n => .v6 n.network

end IpNet

end Tendrilix
