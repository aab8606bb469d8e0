import Tendrilix.AllowedIps.Lookup

/-!
# The AllowedIPs table

One trie for each address family, in a build with both families enabled. `iter` unwraps
`IpNet::new` for every entry, so it is a call that may fault.
-/

namespace Tendrilix

open PrefixWord AllowedIps

variable {D : Type}

structure AllowedIPs (D : Type) where
  v4 : Trie 32 D
  v6 : Trie 128 D

namespace AllowedIPs

def new : AllowedIPs D := ⟨Trie.new, Trie.new⟩

def clear (t : AllowedIPs D) : AllowedIPs D := ⟨t.v4.clear, t.v6.clear⟩

def insert (capacity : Option ℕ) (t : AllowedIPs D) (net : IpNet) (d : D) :
    Call (Except AllowedIPsError (Option D) × AllowedIPs D) :=
  let cidr := net.prefixLen
  match net.network with
  | .v4 addr => do
    let (r, v4) ← t.v4.insert capacity addr cidr d
    return (r, { t with v4 := v4 })
  | .v6 addr => do
    let (r, v6) ← t.v6.insert capacity addr cidr d
    return (r, { t with v6 := v6 })

def find (t : AllowedIPs D) (key : IpAddr) : Call (Option D) :=
  match key with
  | .v4 addr => t.v4.find addr
  | .v6 addr => t.v6.find addr

def overlaps (t : AllowedIPs D) (net : IpNet) : Except AllowedIPsError Bool :=
  let cidr := net.prefixLen
  match net.network with
  | .v4 addr => .ok (t.v4.overlaps addr cidr)
  | .v6 addr => .ok (t.v6.overlaps addr cidr)

def remove (t : AllowedIPs D) (p : D → Bool) : AllowedIPs D := ⟨t.v4.remove p, t.v6.remove p⟩

def unwrapNet (d : D) : Option IpNet → Call (D × IpNet)
  | some net => .ok (d, net)
  | none => .error .unwrapFailed

def iter (t : AllowedIPs D) : Call (List (D × IpNet)) := do
  let v4 ← t.v4.iter.mapM fun (d, pfx, len) => unwrapNet d (IpNet.new (.v4 pfx) len)
  let v6 ← t.v6.iter.mapM fun (d, pfx, len) => unwrapNet d (IpNet.new (.v6 pfx) len)
  return v4 ++ v6

def tryFromLoop (capacity : Option ℕ) : List (IpNet × D) → AllowedIPs D →
    Call (Except AllowedIPsError (AllowedIPs D))
  | [], t => .ok (.ok t)
  | (net, d) :: rest, t => do
    match ← t.insert capacity net d with
    | (.ok _, t') => tryFromLoop capacity rest t'
    | (.error e, _) => return .error e

def tryFromIter (capacity : Option ℕ) (items : List (IpNet × D)) :
    Call (Except AllowedIPsError (AllowedIPs D)) := tryFromLoop capacity items new

end AllowedIPs

end Tendrilix
