import Tendrilix.Control.PeerHealth

/-!
# Network maps

The map of peers and routes that directory servers publish. A `DateTime` is a point in time of the
calendar library, whose leap seconds are nanoseconds beyond the last one of a minute.
-/

namespace Tendrilix.NetMap

structure DateTime where
  seconds : ℤ
  nanos : ℕ
  seconds_mem : -8334601228800 ≤ seconds ∧ seconds ≤ 8210266876799
  nanos_lt : nanos < 2000000000
  leap : 1000000000 ≤ nanos → seconds % 60 = 59
  deriving DecidableEq

namespace DateTime

def instant (t : DateTime) : ℤ ×ₗ ℕ := toLex (t.seconds, t.nanos)

theorem instant_injective : Function.Injective instant := by
  intro a b h
  cases a
  cases b
  simp only [instant, EmbeddingLike.apply_eq_iff_eq, Prod.mk.injEq] at h
  obtain ⟨rfl, rfl⟩ := h
  rfl

instance : LinearOrder DateTime := LinearOrder.lift' instant instant_injective

theorem zero_nanos_lt : 0 < 2000000000 := by decide

/-- `DateTime::from_timestamp` -/
def fromTimestamp (seconds : ℤ) : Option DateTime :=
  if h : -8334601228800 ≤ seconds ∧ seconds ≤ 8210266876799 then
    some ⟨seconds, 0, h, zero_nanos_lt, fun hleap => absurd hleap (by decide)⟩
  else none

end DateTime

abbrev PeerId := Int64

inductive RouteKind
  | direct (endpoint : Option SocketAddr)
  | relay (id : PeerId)
  deriving DecidableEq

structure Route where
  priority : UInt16
  kind : RouteKind
  deriving DecidableEq

structure Peer where
  id : PeerId
  publicKey : KeyBytes
  tunnelIp : Option IpAddr
  isDirectory : Bool
  routes : List Route
  deriving DecidableEq

structure NetworkMap where
  updatedAt : DateTime
  peers : List Peer
  deriving DecidableEq

namespace NetworkMap

/-- The peers have distinct ids, public keys and tunnel addresses. -/
structure Valid (map : NetworkMap) : Prop where
  ids : map.peers.Pairwise fun p q => p.id ≠ q.id
  publicKeys : map.peers.Pairwise fun p q => (p.publicKey : PublicKey) ≠ q.publicKey
  tunnelIps : map.peers.Pairwise fun p q => p.tunnelIp.isSome → p.tunnelIp ≠ q.tunnelIp

def tunnelIpOf (map : NetworkMap) (publicKey : PublicKey) : Option IpAddr :=
  (map.peers.find? (·.publicKey = publicKey)).bind (·.tunnelIp)

variable {map : NetworkMap} {p q : Peer}

theorem Valid.eq_of_publicKey (h : map.Valid) (hp : p ∈ map.peers) (hq : q ∈ map.peers)
    (hkey : (p.publicKey : PublicKey) = q.publicKey) : p = q := by
  by_contra hne
  have : Std.Symm fun p q : Peer => (p.publicKey : PublicKey) ≠ q.publicKey := ⟨fun _ _ hkeys => hkeys.symm⟩
  exact h.publicKeys.forall hp hq hne hkey

theorem Valid.eq_of_tunnelIp (h : map.Valid) (hp : p ∈ map.peers) (hq : q ∈ map.peers) {a : IpAddr}
    (hpa : p.tunnelIp = some a) (hqa : q.tunnelIp = some a) : p = q := by
  by_contra hne
  have : Std.Symm fun p q : Peer => p.tunnelIp.isSome → p.tunnelIp ≠ q.tunnelIp :=
    ⟨fun _ _ hips hsome heq => hips (heq ▸ hsome) heq.symm⟩
  exact h.tunnelIps.forall hp hq hne (by simp [hpa]) (hpa.trans hqa.symm)

theorem Valid.tunnelIpOf_eq (h : map.Valid) (hp : p ∈ map.peers) :
    map.tunnelIpOf p.publicKey = p.tunnelIp := by
  rw [tunnelIpOf]
  cases hfind : map.peers.find? (fun q => (q.publicKey : PublicKey) = p.publicKey) with
  | none => simpa using List.find?_eq_none.mp hfind p hp
  | some q =>
    have hkey : (q.publicKey : PublicKey) = p.publicKey := by simpa using List.find?_some hfind
    rw [h.eq_of_publicKey (List.mem_of_find?_eq_some hfind) hp hkey]
    rfl

end NetworkMap

end Tendrilix.NetMap
