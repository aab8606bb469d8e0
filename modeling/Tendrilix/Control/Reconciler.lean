import Tendrilix.Attempt
import Tendrilix.Control.NetMap

/-!
# The reconciler

A network map is turned into the peers wanted on the device, the difference to what the device runs
is applied, and the health of each peer's routes is sampled to switch between them. Every call to the
device may fail, and what was done before the failure stays.
-/

namespace Tendrilix.Control

open NetMap (NetworkMap DateTime)

/-- The generator behind `&mut R`, as the `u64` values that it is about to give. -/
structure Rng where
  draw : ℕ → ℕ
  used : ℕ := 0

def Rng.nextU64 (rng : Rng) : ℕ × Rng := (rng.draw rng.used % 2 ^ 64, { rng with used := rng.used + 1 })

def randomBelow (rng : Rng) (modulo : ℕ) : ℕ × Rng :=
  if modulo = 0 then (0, rng)
  else
    let (draw, rng) := rng.nextU64
    (draw % modulo, rng)

inductive ReconcileError
  | device (e : Device.Error)
  | capacityExceeded (context : String)
  deriving DecidableEq

/-! ### Route policies -/

inductive RoutePolicy
  | direct (endpoint : Option SocketAddr) (priority : UInt16)
  | relay (relay : PublicKey) (priority : UInt16)
  deriving DecidableEq

namespace RoutePolicy

def priority : RoutePolicy → UInt16
  | .direct _ priority => priority
  | .relay _ priority => priority

def setPriority (newPriority : UInt16) : RoutePolicy → RoutePolicy
  | .direct endpoint _ => .direct endpoint newPriority
  | .relay key _ => .relay key newPriority

def sameRoute : RoutePolicy → RoutePolicy → Bool
  | .direct a _, .direct b _ => a = b
  | .relay a _, .relay b _ => a = b
  | _, _ => false

def routeKey : RoutePolicy → RouteKey
  | .direct endpoint _ => .direct endpoint
  | .relay key _ => .relay key

end RoutePolicy

/-- What the source takes from elsewhere: the memory profile, the hash of a configuration and the
order in which `sort_unstable_by_key` leaves policies of equal priority. -/
structure Build where
  profile : Profile
  fingerprint : PeerConfig → ℕ
  sortByPriority : List RoutePolicy → List RoutePolicy
  sort_perm : ∀ policies, (sortByPriority policies).Perm policies
  sort_sorted : ∀ policies, (sortByPriority policies).Pairwise fun p q => p.priority ≤ q.priority

structure DesiredPeer where
  publicKey : PublicKey
  allowedIps : List IpAddr
  keepalive : Option ℕ
  policies : List RoutePolicy
  activeRoute : Option RouteKey
  activePolicy : ℕ

namespace DesiredPeer

def activePolicyIndex (p : DesiredPeer) : ℕ := min p.activePolicy (p.policies.length - 1)

def setActivePolicy (p : DesiredPeer) (policyIndex : ℕ) : DesiredPeer :=
  let activePolicy := min policyIndex (p.policies.length - 1)
  { p with
    activePolicy := activePolicy
    activeRoute := p.policies[activePolicy]?.map RoutePolicy.routeKey }

def preferredDirectEndpoint (p : DesiredPeer) : Option SocketAddr :=
  p.policies.findSome? fun
    | .direct (some endpoint) _ => some endpoint
    | _ => none

def hostNet : IpAddr → IpNet
  | .v4 addr => .v4 ⟨addr, 32, le_refl _⟩
  | .v6 addr => .v6 ⟨addr, 128, le_refl _⟩

def configForPolicy (p : DesiredPeer) (policyIndex : ℕ) (keepalive : Option ℕ) : PeerConfig :=
  let (endpoint, relay) := match p.policies[policyIndex]? with
    | some (.direct endpoint _) => (endpoint, none)
    | some (.relay relay _) => (p.preferredDirectEndpoint, some relay)
    | none => (none, none)
  { publicKey := p.publicKey
    endpoint := endpoint
    allowedIps := p.allowedIps.map hostNet
    keepalive := keepalive
    relay := relay }

def config (p : DesiredPeer) : PeerConfig := p.configForPolicy p.activePolicyIndex p.keepalive

end DesiredPeer

/-! ### From a map to the desired peers -/

def collect {α : Type} (capacity : Option ℕ) (items : List α) (context : String) :
    Except ReconcileError (List α) :=
  (Bounded.collect capacity items).elim (.error (.capacityExceeded context)) .ok

def routeKeysForPolicies (b : Build) (policies : List RoutePolicy) :
    Except ReconcileError (List RouteKey) :=
  collect b.profile.maxRoutes (policies.map RoutePolicy.routeKey) "route keys"

def directoryServersFromMap (b : Build) (map : NetworkMap) : Except ReconcileError (List NetMap.Peer) :=
  collect b.profile.maxPeers (map.peers.filter (·.isDirectory)) "directory peers"

/-- A relay that is not in the map, or is the destination itself, is no route. -/
def routePolicy (map : NetworkMap) (destination : NetMap.Peer) (route : NetMap.Route) :
    Option RoutePolicy :=
  match route.kind with
  | .direct endpoint => some (.direct endpoint route.priority)
  | .relay id =>
    match map.peers.find? (·.id = id) with
    | none => none
    | some relay =>
      if relay.publicKey = destination.publicKey then none
      else some (.relay relay.publicKey route.priority)

/-- A duplicate route keeps the better of the two priorities. -/
def dedupe : List RoutePolicy → List RoutePolicy → List RoutePolicy
  | [], deduped => deduped
  | policy :: rest, deduped =>
    match deduped.findIdx? (·.sameRoute policy) with
    | some i => dedupe rest (deduped.modify i fun existing =>
        if policy.priority < existing.priority then existing.setPriority policy.priority else existing)
    | none => dedupe rest (deduped ++ [policy])

def dedupeAndSortPolicies (b : Build) (policies : List RoutePolicy) :
    Except ReconcileError (List RoutePolicy) := do
  let deduped ← collect b.profile.maxRoutes (dedupe policies []) "route policies"
  return b.sortByPriority deduped

def routePoliciesForPeer (b : Build) (map : NetworkMap) (destination : NetMap.Peer) :
    Except ReconcileError (List RoutePolicy) := do
  let policies ← collect b.profile.maxRoutes
    (destination.routes.filterMap (routePolicy map destination)) "route policies"
  dedupeAndSortPolicies b (if policies.isEmpty then [.direct none 0] else policies)

def initialPolicyIndex (policies : List RoutePolicy) (rng : Rng) : ℕ × Rng :=
  match (policies.map RoutePolicy.priority).min? with
  | none => (0, rng)
  | some bestPriority =>
    let candidates := (List.range policies.length).filter fun index =>
      policies[index]?.any (·.priority = bestPriority)
    let (chosen, rng) := randomBelow rng candidates.length
    (candidates[chosen]?.getD 0, rng)

def desiredPeer (peer : NetMap.Peer) (allowedIps : List IpAddr) (policies : List RoutePolicy)
    (activePolicy : ℕ) : DesiredPeer where
  publicKey := peer.publicKey
  allowedIps := allowedIps
  keepalive := if peer.isDirectory then some 25 else none
  policies := policies
  activeRoute := policies[activePolicy]?.map RoutePolicy.routeKey
  activePolicy := activePolicy

def desiredPeersLoop (b : Build) (map : NetworkMap) :
    List NetMap.Peer → Bounded.Map PublicKey DesiredPeer → Rng →
      Except ReconcileError (Bounded.Map PublicKey DesiredPeer) × Rng
  | [], desired, rng => (.ok desired, rng)
  | peer :: rest, desired, rng =>
    match collect b.profile.maxAllowedIpsPerPeer peer.tunnelIp.toList "allowed IPs",
        routePoliciesForPeer b map peer with
    | .error e, _ => (.error e, rng)
    | _, .error e => (.error e, rng)
    | .ok allowedIps, .ok policies =>
      if policies.isEmpty then desiredPeersLoop b map rest desired rng
      else
        let (activePolicy, rng) := initialPolicyIndex policies rng
        match Bounded.tryInsertEntry b.profile.maxPeers desired peer.publicKey
            (desiredPeer peer allowedIps policies activePolicy) with
        | none => (.error (.capacityExceeded "desired peers"), rng)
        | some desired => desiredPeersLoop b map rest desired rng

def desiredPeersFromMap (b : Build) (map : NetworkMap) (rng : Rng) :
    Except ReconcileError (Bounded.Map PublicKey DesiredPeer) × Rng :=
  desiredPeersLoop b map map.peers ∅ rng

/-! ### The reconciler -/

/-- The operations of `DeviceClient`. A device may fail an operation with one of its errors. -/
class DeviceClient (C : Type) where
  addPeer : PeerConfig → C → Call (Except Device.Error Unit × C)
  updatePeer : PeerConfig → C → Call (Except Device.Error Unit × C)
  removePeer : PublicKey → C → Call (Except Device.Error Unit × C)
  getPeer : PublicKey → C → Call (Except Device.Error Device.PeerInfo × C)
  listPeers : C → Call (Except Device.Error (List PublicKey) × C)

structure PeerReconciler (C : Type) where
  client : C
  /-- The generator that the callers pass along. -/
  rng : Rng
  directories : List NetMap.Peer
  desired : Bounded.Map PublicKey DesiredPeer := ∅
  health : Bounded.Map PublicKey PeerHealth := ∅
  appliedConfigFingerprints : Bounded.Map PublicKey ℕ := ∅
  lastAppliedMapUpdatedAt : Option DateTime := none

namespace PeerReconciler

open Attempt

variable {C : Type}

def new (client : C) (directories : List NetMap.Peer) (rng : Rng) : PeerReconciler C :=
  { client := client, rng := rng, directories := directories }

abbrev Pass (C : Type) := Attempt ReconcileError (PeerReconciler C)

def callClient {α : Type} (op : C → Call (Except Device.Error α × C)) : Pass C α := fun r =>
  match op r.client with
  | .error fault => .error fault
  | .ok (.error e, client) => .ok (.error (.device e), { r with client := client })
  | .ok (.ok a, client) => .ok (.ok a, { r with client := client })

def isStale (r : PeerReconciler C) (map : NetworkMap) : Bool :=
  r.lastAppliedMapUpdatedAt.any (map.updatedAt ≤ ·)

def insertFingerprint (b : Build) (key : PublicKey) (fingerprint : ℕ) : Pass C Unit := do
  let r ← get
  match Bounded.tryInsertEntry b.profile.maxPeers r.appliedConfigFingerprints key fingerprint with
  | none => fail (.capacityExceeded "peer config fingerprints")
  | some fingerprints => modify fun r => { r with appliedConfigFingerprints := fingerprints }

def insertHealth (b : Build) (key : PublicKey) (health : PeerHealth) : Pass C Unit := do
  let r ← get
  match Bounded.tryInsertEntry b.profile.maxPeers r.health key health with
  | none => fail (.capacityExceeded "peer health")
  | some table => modify fun r => { r with health := table }

/-- The route that the peer was last on: by its health, by the desired peer, by the old index. -/
def oldActiveRoute (r : PeerReconciler C) (key : PublicKey) (health : PeerHealth) : Option RouteKey :=
  let oldPeer := r.desired.lookup key
  health.activeRoute <|> oldPeer.bind (·.activeRoute) <|>
    oldPeer.bind fun p => p.policies[health.activePolicy]?.map RoutePolicy.routeKey

def carryForwardPeer (b : Build) (key : PublicKey) (peer : DesiredPeer) (r : PeerReconciler C) :
    DesiredPeer × PeerReconciler C :=
  match r.health.lookup key with
  | none => (peer, r)
  | some health =>
    let newActivePolicy := ((r.oldActiveRoute key health).bind fun route =>
      peer.policies.findIdx? (·.routeKey = route)).getD 0
    let peer := peer.setActivePolicy newActivePolicy
    let health := match routeKeysForPolicies b peer.policies with
      | .ok routes => health.syncPolicies b.profile newActivePolicy routes
      | .error _ => health.resetPolicyState.syncActivePolicy newActivePolicy
    (peer, { r with health := r.health.replace key health })

def carryForwardLoop (b : Build) :
    List PublicKey → Bounded.Map PublicKey DesiredPeer → PeerReconciler C →
      Bounded.Map PublicKey DesiredPeer × PeerReconciler C
  | [], desired, r => (desired, r)
  | key :: rest, desired, r =>
    match desired.lookup key with
    | none => carryForwardLoop b rest desired r
    | some peer =>
      let (peer, r) := carryForwardPeer b key peer r
      carryForwardLoop b rest (desired.replace key peer) r

def carryForwardActivePolicies (b : Build) (desired : Bounded.Map PublicKey DesiredPeer) :
    Pass C (Bounded.Map PublicKey DesiredPeer) := fun r =>
  let (desired, r) := carryForwardLoop b desired.keys desired r
  .ok (.ok desired, r)

variable [DeviceClient C]

def removeVanishedPeer (desired : Bounded.Map PublicKey DesiredPeer) (key : PublicKey) :
    Pass C Unit :=
  if key ∈ desired then pure ()
  else do
    callClient (DeviceClient.removePeer key)
    modify fun r => { r with
      health := r.health.erase key
      appliedConfigFingerprints := r.appliedConfigFingerprints.erase key }

def removeVanishedPeers (actual : List PublicKey) (desired : Bounded.Map PublicKey DesiredPeer) :
    Pass C Unit :=
  forEach actual (removeVanishedPeer desired)

def trackActivePolicy (b : Build) (key : PublicKey) (activePolicy : ℕ) (routes : List RouteKey)
    (now : ℕ) : Pass C Unit := do
  let r ← get
  match r.health.lookup key with
  | some health =>
    modify fun r => { r with
      health := r.health.replace key (health.syncPolicies b.profile activePolicy routes) }
  | none =>
    let (draw, rng) := r.rng.nextU64
    modify fun r => { r with rng := rng }
    let health := PeerHealth.newWithJitter activePolicy now (PeerHealth.jitterFrom draw)
    insertHealth b key (health.syncPolicies b.profile activePolicy routes)

/-- The device gets the configuration of one desired peer, unless it has it already. -/
def applyConfig (b : Build) (actual : List PublicKey) (key : PublicKey) (config : PeerConfig) :
    Pass C Unit := do
  let fingerprint := b.fingerprint config
  if key ∈ actual then
    let r ← get
    if r.appliedConfigFingerprints.lookup key ≠ some fingerprint then
      callClient (DeviceClient.updatePeer config)
      insertFingerprint b key fingerprint
  else
    callClient (DeviceClient.addPeer config)
    insertFingerprint b key fingerprint

def applyPeer (b : Build) (actual : List PublicKey) (now : ℕ) (entry : Σ _ : PublicKey, DesiredPeer) :
    Pass C Unit := do
  applyConfig b actual entry.1 entry.2.config
  let routes ← ofExcept (routeKeysForPolicies b entry.2.policies)
  trackActivePolicy b entry.1 entry.2.activePolicyIndex routes now

def applyDesiredPeers (b : Build) (actual : List PublicKey)
    (desired : Bounded.Map PublicKey DesiredPeer) (now : ℕ) : Pass C Unit :=
  forEach desired.entries (applyPeer b actual now)

/-- `order` is the order in which the new map of desired peers is iterated. -/
def reconcileNetworkMap (b : Build) (map : NetworkMap) (now : ℕ) (order : List PublicKey) :
    Pass C Bool := do
  let r ← get
  if r.isStale map then pure false
  else
    let (outcome, rng) := desiredPeersFromMap b map r.rng
    modify fun r => { r with rng := rng }
    let desired ← ofExcept outcome
    let desired ← carryForwardActivePolicies b (Bounded.reorder order desired)
    let actual ← callClient DeviceClient.listPeers
    removeVanishedPeers actual desired
    applyDesiredPeers b actual desired now
    let directories ← ofExcept (directoryServersFromMap b map)
    modify fun r => { r with
      directories := directories
      desired := desired
      lastAppliedMapUpdatedAt := some map.updatedAt }
    pure true

def applyActivePolicy (b : Build) (key : PublicKey) (policyIndex : ℕ) : Pass C Unit := do
  let r ← get
  match r.desired.lookup key with
  | none => pure ()
  | some peer =>
    let peer := peer.setActivePolicy policyIndex
    modify fun r => { r with desired := r.desired.replace key peer }
    callClient (DeviceClient.updatePeer peer.config)
    insertFingerprint b key (b.fingerprint peer.config)

/-- The views are put back to what they were before a switch that the device refused. -/
def rollBack (b : Build) (key : PublicKey) (previousHealth : PeerHealth) (activePolicy : ℕ)
    (e : ReconcileError) : Pass C Unit := do
  insertHealth b key previousHealth
  modify fun r => { r with
    desired := (r.desired.lookup key).elim r.desired fun peer =>
      r.desired.replace key (peer.setActivePolicy activePolicy) }
  fail e

/-- The body of the loop of `reconcile_peer_health_at`. -/
def samplePeerHealth (b : Build) (now : ℕ) (key : PublicKey) : Pass C Unit := do
  let r ← get
  match r.desired.lookup key with
  | none => pure ()
  | some peer =>
    let routes ← ofExcept (routeKeysForPolicies b peer.policies)
    if peer.policies.length ≤ 1 then pure ()
    else
      let activePolicy := peer.activePolicyIndex
      let info ← callClient (DeviceClient.getPeer key)
      trackActivePolicy b key activePolicy routes now
      let r ← get
      match r.health.lookup key with
      | none => fault .unwrapFailed
      | some previousHealth =>
        let (decision, health) := previousHealth.observe b.profile info.stats routes now
        modify fun r => { r with health := r.health.replace key health }
        match decision with
        | .switch nextPolicy _ =>
          catching (applyActivePolicy b key nextPolicy) (rollBack b key previousHealth activePolicy)
        | _ => pure ()

def reconcilePeerHealth (b : Build) (now : ℕ) : Pass C Unit := do
  let r ← get
  let keys ← ofExcept (collect b.profile.maxPeers r.desired.keys "peer health keys")
  forEach keys (samplePeerHealth b now)

/-- The calls that drive the reconciler. -/
inductive Request
  | networkMap (map : NetworkMap) (now : ℕ) (order : List PublicKey)
  | peerHealth (now : ℕ)

/-- `true` for a map that was applied. -/
def step (b : Build) (r : PeerReconciler C) :
    Request → Call (Except ReconcileError Bool × PeerReconciler C)
  | .networkMap map now order => reconcileNetworkMap b map now order r
  | .peerHealth now => (do reconcilePeerHealth b now; pure false : Pass C Bool) r

end PeerReconciler

end Tendrilix.Control

/-! ### A sample device that refuses operations -/

namespace Tendrilix.Sample

open Control

def fnv (bytes : Bytes) : ℕ :=
  bytes.foldl (fun hash byte => (hash ^^^ byte.toNat) * 16777619 % 2 ^ 32) 2166136261

def hashOption {α : Type} (hash : α → Bytes) : Option α → Bytes
  | none => Bytes.toLe 8 0
  | some a => Bytes.toLe 8 1 ++ hash a

def hashKey (key : PublicKey) : Bytes := Bytes.toLe 8 32 ++ key.bytes

def hashAddr : SocketAddr → Bytes
  | .v4 ip port => Bytes.toLe 8 0 ++ Bytes.toBe 4 ip.toNat ++ Bytes.toLe 2 port
  | .v6 ip port flowinfo scopeId =>
    Bytes.toLe 8 1 ++ Bytes.toBe 16 ip.toNat ++ Bytes.toLe 2 port ++ Bytes.toLe 4 flowinfo ++
      Bytes.toLe 4 scopeId

def hashNet : IpNet → Bytes
  | .v4 net => Bytes.toLe 8 0 ++ Bytes.toBe 4 net.addr.toNat ++ Bytes.toLe 1 net.prefixLen
  | .v6 net => Bytes.toLe 8 1 ++ Bytes.toBe 16 net.addr.toNat ++ Bytes.toLe 1 net.prefixLen

def fingerprint (config : PeerConfig) : ℕ :=
  fnv (hashKey config.publicKey ++ hashOption hashAddr config.endpoint ++
    Bytes.toLe 8 config.allowedIps.length ++ (config.allowedIps.map hashNet).flatten ++
    hashOption (Bytes.toLe 2) config.keepalive ++ hashOption hashKey config.relay)

def byPriority (p q : RoutePolicy) : Prop := p.priority ≤ q.priority

instance : DecidableRel byPriority := fun p q => inferInstanceAs (Decidable (p.priority ≤ q.priority))

instance : Std.Total byPriority := ⟨fun p q => UInt16.le_total p.priority q.priority⟩

instance : IsTrans RoutePolicy byPriority := ⟨fun _ _ _ h h' => UInt16.le_trans h h'⟩

def build : Build where
  profile := .alloc
  fingerprint := fingerprint
  sortByPriority := List.insertionSort byPriority
  sort_perm := List.perm_insertionSort byPriority
  sort_sorted := List.pairwise_insertionSort byPriority

/-- A device that keeps the configurations and refuses the operations marked in `refusals`. The peers
send 100 packets between two readings of their counters and receive nothing. -/
structure FlakyDevice where
  peers : Bounded.Map PublicKey PeerConfig := ∅
  refusals : List Bool := []
  txPackets : ℕ := 0

namespace FlakyDevice

def attempt {α : Type} (d : FlakyDevice) (answer : α) (after : FlakyDevice) :
    Call (Except Device.Error α × FlakyDevice) :=
  match d.refusals with
  | true :: rest => .ok (.error .io, { d with refusals := rest })
  | refusals => .ok (.ok answer, { after with refusals := refusals.tail })

instance : DeviceClient FlakyDevice where
  addPeer config d := d.attempt () { d with peers := d.peers.insert config.publicKey config }
  updatePeer config d := d.attempt () { d with peers := d.peers.insert config.publicKey config }
  removePeer key d := d.attempt () { d with peers := d.peers.erase key }
  getPeer _ d :=
    d.attempt ⟨none, none, { txPackets := d.txPackets }, none⟩ { d with txPackets := d.txPackets + 100 }
  listPeers d := d.attempt d.peers.keys d

def installed (d : FlakyDevice) (key : PublicKey) : Option PeerConfig := d.peers.lookup key

end FlakyDevice

end Tendrilix.Sample
