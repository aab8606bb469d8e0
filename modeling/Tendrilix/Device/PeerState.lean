import Tendrilix.AllowedIps.Table
import Tendrilix.Bounded
import Tendrilix.Device.IndexGenerator
import Tendrilix.Limits
import Tendrilix.Noise.Relay
import Tendrilix.Noise.Tunn

/-!
# The peer table

Peers are stored by public key, by index and by route. The commands that add, update and remove a
peer keep the three tables together.
-/

namespace Tendrilix

open AllowedIps Noise

variable {K : Crypto} {N BYTES : ℕ}

inductive SocketAddr
  | v4 (ip : Ipv4Addr) (port : ℕ)
  | v6 (ip : Ipv6Addr) (port flowinfo scopeId : ℕ)
  deriving DecidableEq

def SocketAddr.ip : SocketAddr → IpAddr
  | .v4 ip _ => .v4 ip
  | .v6 ip _ _ _ => .v6 ip

namespace Device

inductive Error
  | io
  | peerAlreadyExists
  | peerNotFound
  | allowedIPOverlap
  | capacity
  deriving DecidableEq, Repr

end Device

/-- The capacity of the table that maps routes to peers. -/
def Profile.peerRoutes (profile : Profile) : Option ℕ := do
  return (← profile.maxPeers) * (← profile.maxAllowedIpsPerPeer)

structure PeerConfig where
  publicKey : PublicKey
  endpoint : Option SocketAddr
  allowedIps : List IpNet
  keepalive : Option ℕ
  relay : Option PublicKey
  deriving DecidableEq

structure Peer (K : Crypto) where
  tunnel : Tunn K
  index : ℕ
  endpoint : Option SocketAddr
  relay : Option PublicKey
  allowedIps : AllowedIPs Unit

namespace Peer

def allowedIpsFromSlice (profile : Profile) (allowedIps : List IpNet) :
    Call (Except Device.Error (AllowedIPs Unit)) := do
  match ← AllowedIPs.tryFromIter profile.maxAllowedIpsPerPeer (allowedIps.map fun ip => (ip, ())) with
  | .ok table => return .ok table
  | .error _ => return .error .capacity

def new (profile : Profile) (tunnel : Tunn K) (index : ℕ) (endpoint : Option SocketAddr)
    (allowedIps : List IpNet) (relay : Option PublicKey) : Call (Except Device.Error (Peer K)) := do
  match ← allowedIpsFromSlice profile allowedIps with
  | .error e => return .error e
  | .ok allowedIps =>
    return .ok
      { tunnel := tunnel
        index := index
        endpoint := endpoint
        relay := relay
        allowedIps := allowedIps }

def isAllowedIp (p : Peer K) (addr : IpAddr) : Call Bool := do
  return (← p.allowedIps.find addr).isSome

end Peer

structure PeerState (K : Crypto) where
  peers : Bounded.Map PublicKey (Peer K) := ∅
  peersByIp : AllowedIPs PublicKey := .new
  peersByIdx : Bounded.Map ℕ PublicKey := ∅

namespace PeerState

def new : PeerState K := {}

def peerByKey (s : PeerState K) (publicKey : PublicKey) : Option (Peer K) := s.peers.lookup publicKey

def setPeer (s : PeerState K) (publicKey : PublicKey) (peer : Peer K) : PeerState K :=
  { s with peers := s.peers.replace publicKey peer }

/-- The lower byte of a receiver index is the peer's own. -/
def peerKeyByIndex (s : PeerState K) (index : ℕ) : Option PublicKey :=
  s.peersByIdx.lookup (index >>> 8)

def peerKeys (s : PeerState K) : List PublicKey := s.peers.keys

def insertPeerStorage (profile : Profile) (s : PeerState K) (publicKey : PublicKey) (index : ℕ)
    (peer : Peer K) : Except Device.Error Unit × PeerState K :=
  match Bounded.tryInsertEntry profile.maxPeers s.peers publicKey peer with
  | none => (.error .capacity, s)
  | some peers =>
    match Bounded.tryInsertEntry profile.maxPeers s.peersByIdx index publicKey with
    | none => (.error .capacity, { s with peers := peers.erase publicKey })
    | some peersByIdx => (.ok (), { s with peers := peers, peersByIdx := peersByIdx })

def removePeerStorage (s : PeerState K) (publicKey : PublicKey) : Bool × PeerState K :=
  match s.peers.lookup publicKey with
  | none => (false, s)
  | some peer =>
    (true, { s with
      peers := s.peers.erase publicKey
      peersByIdx := s.peersByIdx.erase peer.index })

/-- The inner loop of `rebuilt_peers_by_ip_with`, over the prefixes of one peer. -/
def routePeer (profile : Profile) (publicKey : PublicKey) :
    List IpNet → AllowedIPs PublicKey → Call (Except Device.Error (AllowedIPs PublicKey))
  | [], peersByIp => .ok (.ok peersByIp)
  | allowedIp :: rest, peersByIp =>
    match peersByIp.overlaps allowedIp with
    | .error _ => .ok (.error .capacity)
    | .ok true => .ok (.error .allowedIPOverlap)
    | .ok false => do
      match ← peersByIp.insert profile.peerRoutes allowedIp publicKey with
      | (.ok _, peersByIp) => routePeer profile publicKey rest peersByIp
      | (.error _, _) => return .error .capacity

def routePeers (profile : Profile) :
    List (PublicKey × AllowedIPs Unit) → AllowedIPs PublicKey →
      Call (Except Device.Error (AllowedIPs PublicKey))
  | [], peersByIp => .ok (.ok peersByIp)
  | (publicKey, allowedIps) :: rest, peersByIp => do
    let items ← allowedIps.iter
    match ← routePeer profile publicKey (items.map Prod.snd) peersByIp with
    | .error e => return .error e
    | .ok peersByIp => routePeers profile rest peersByIp

/-- The prefixes of every peer, those of the updated one replaced. A new peer comes last. -/
def routesWith (s : PeerState K) (updatedPublicKey : PublicKey) (updatedAllowedIps : AllowedIPs Unit) :
    List (PublicKey × AllowedIPs Unit) :=
  (s.peers.entries.map fun ⟨publicKey, peer⟩ =>
      (publicKey, if publicKey = updatedPublicKey then updatedAllowedIps else peer.allowedIps)) ++
    if updatedPublicKey ∈ s.peers then [] else [(updatedPublicKey, updatedAllowedIps)]

def rebuiltPeersByIpWith (profile : Profile) (s : PeerState K) (updatedPublicKey : PublicKey)
    (updatedAllowedIps : AllowedIPs Unit) : Call (Except Device.Error (AllowedIPs PublicKey)) :=
  routePeers profile (s.routesWith updatedPublicKey updatedAllowedIps) .new

end PeerState

namespace Device

def addPeerToState (profile : Profile) (peers : PeerState K) (config : PeerConfig)
    (privateKey : K.Secret) (indexGenerator : IndexGenerator) (stamper : TimeStamper)
    (w : World K N BYTES) :
    Call (Except Error Unit × PeerState K × IndexGenerator × World K N BYTES) :=
  if (peers.peerByKey config.publicKey).isSome then
    .ok (.error .peerAlreadyExists, peers, indexGenerator, w)
  else do
    let (index, indexGenerator) ← indexGenerator.newIndex
    let (tunn, w) := Tunn.new privateKey config.publicKey.bytes config.keepalive index stamper w
    match ← Peer.new profile tunn index config.endpoint config.allowedIps config.relay with
    | .error e => return (.error e, peers, indexGenerator, w)
    | .ok peer =>
      match ← peers.rebuiltPeersByIpWith profile config.publicKey peer.allowedIps with
      | .error e => return (.error e, peers, indexGenerator, w)
      | .ok peersByIp =>
        match peers.insertPeerStorage profile config.publicKey index peer with
        | (.error e, peers) => return (.error e, peers, indexGenerator, w)
        | (.ok (), peers) => return (.ok (), { peers with peersByIp := peersByIp }, indexGenerator, w)

def updatePeerInState (profile : Profile) (peers : PeerState K) (config : PeerConfig) :
    Call (Except Error Unit × PeerState K) :=
  match peers.peerByKey config.publicKey with
  | none => .ok (.error .peerNotFound, peers)
  | some peer => do
    match ← Peer.allowedIpsFromSlice profile config.allowedIps with
    | .error e => return (.error e, peers)
    | .ok allowedIps =>
      match ← peers.rebuiltPeersByIpWith profile config.publicKey allowedIps with
      | .error e => return (.error e, peers)
      | .ok peersByIp =>
        let peer := { peer with
          endpoint := config.endpoint
          relay := config.relay
          tunnel := peer.tunnel.setPersistentKeepalive config.keepalive
          allowedIps := allowedIps }
        return (.ok (), { peers.setPeer config.publicKey peer with peersByIp := peersByIp })

def removePeerFromState (peers : PeerState K) (publicKey : PublicKey) : PeerState K :=
  match peers.removePeerStorage publicKey with
  | (true, peers) => { peers with peersByIp := peers.peersByIp.remove (· = publicKey) }
  | (false, peers) => peers

end Device

end Tendrilix
