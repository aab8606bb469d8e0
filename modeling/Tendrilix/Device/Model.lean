import Tendrilix.Device.PeerState
import Tendrilix.Machine
import Tendrilix.Noise.RateLimiter

/-!
# The device

The event loop handles one event at a time: a packet from the network interface, a datagram, a
tick of the timer or a command. What an event sends is collected in the order of the sends.
-/

namespace Tendrilix

open AllowedIps Noise

variable {K : Crypto} {N BYTES : ℕ}

namespace SocketAddr

/-- `to_ipv4_mapped` -/
def mappedIpv4 (a : Ipv6Addr) : Option Ipv4Addr :=
  if a.toNat / 2 ^ 32 = 0xffff then some (BitVec.ofNat 32 (a.toNat % 2 ^ 32)) else none

def normalize : SocketAddr → SocketAddr
  | .v4 ip port => .v4 ip port
  | .v6 ip port flowinfo scopeId =>
    match mappedIpv4 ip with
    | some ip => .v4 ip port
    | none => .v6 ip port flowinfo scopeId

end SocketAddr

namespace Device

def handshakeRateLimit : ℕ := 100

def maxItr : ℕ := 100

structure Stats where
  timeSinceLastHandshake : Option ℕ
  traffic : Traffic
  rttMs : Option ℕ
  deriving DecidableEq

structure PeerInfo where
  endpoint : Option SocketAddr
  stats : Stats
  deriving DecidableEq

inductive CommandOutput
  | none
  | peerInfo (info : PeerInfo)
  | peerKeys (keys : List PublicKey)
  deriving DecidableEq

abbrev CommandCompletion := Except Error CommandOutput

inductive Command
  | none
  | add (config : PeerConfig)
  | update (config : PeerConfig)
  | remove (publicKey : PublicKey)
  | get (publicKey : PublicKey)
  | list
  deriving DecidableEq

inductive Output
  | udp (packet : Bytes) (addr : SocketAddr)
  | nic (packet : Bytes) (peer : PublicKey)
  | completion (c : CommandCompletion)

structure Config (K : Crypto) where
  privateKey : K.Secret
  forwardingAuthorizer : PublicKey → PublicKey → Bool
  peers : List PeerConfig

structure Resources where
  indexGenerator : IndexGenerator
  stamper : TimeStamper

/-- What `Device::new` draws from the random generator. -/
structure Draws where
  seed : IndexGenerator.RandomIndex
  mask : IndexGenerator.RandomIndex
  secretKey : Bytes
  nonceKey : Bytes

end Device

structure Device (K : Crypto) (N BYTES : ℕ) where
  profile : Profile
  privateKey : K.Secret
  rateLimiter : RateLimiter
  peers : PeerState K
  indexGenerator : IndexGenerator
  stamper : TimeStamper
  forwardingAuthorizer : PublicKey → PublicKey → Bool
  world : World K N BYTES
  tickCount : ℕ := 0

namespace Noise.Tunn

def timeSinceLastHandshake (t : Tunn K) (w : World K N BYTES) :
    Call (Option ℕ × World K N BYTES) :=
  if t.currentSession.isSome then
    let (now, w) := w.now
    let durationSinceTunStart := now - t.timers.timeStarted
    let durationSinceSessionEstablished := t.timers.timers .timeSessionEstablished
    if durationSinceTunStart < durationSinceSessionEstablished then .error .durationUnderflow
    else .ok (some (durationSinceTunStart - durationSinceSessionEstablished), w)
  else .ok (none, w)

def stats (t : Tunn K) (w : World K N BYTES) : Call (Device.Stats × World K N BYTES) := do
  let (timeSinceLastHandshake, w) ← t.timeSinceLastHandshake w
  return (⟨timeSinceLastHandshake, t.traffic, t.handshake.lastRtt⟩, w)

end Noise.Tunn

namespace Device

/-- The peers of the configuration, added one after the other. -/
def addPeers (profile : Profile) (privateKey : K.Secret) (stamper : TimeStamper) :
    List PeerConfig → PeerState K → IndexGenerator → World K N BYTES →
      Call (Except Error (PeerState K × IndexGenerator × World K N BYTES))
  | [], peers, indexGenerator, w => .ok (.ok (peers, indexGenerator, w))
  | config :: rest, peers, indexGenerator, w => do
    match ← addPeerToState profile peers config privateKey indexGenerator stamper w with
    | (.error e, _, _, _) => return .error e
    | (.ok (), peers, indexGenerator, w) =>
      addPeers profile privateKey stamper rest peers indexGenerator w

def new (profile : Profile) (config : Config K) (resources : Resources) (draws : Draws)
    (clock : ℕ → ℕ) (secrets : ℕ → K.Secret) : Call (Except Error (Device K N BYTES)) := do
  let indexGenerator := resources.indexGenerator.initializeWith draws.seed draws.mask
  let w : World K N BYTES := { clock := clock, secrets := secrets, pool := .new N BYTES profile }
  match ← addPeers profile config.privateKey resources.stamper config.peers .new indexGenerator w with
  | .error e => return .error e
  | .ok (peers, indexGenerator, w) =>
    let (rateLimiter, w) := RateLimiter.new K (K.publicKey config.privateKey) handshakeRateLimit
      draws.secretKey draws.nonceKey w
    return .ok
      { profile := profile
        privateKey := config.privateKey
        rateLimiter := rateLimiter
        peers := peers
        indexGenerator := indexGenerator
        stamper := resources.stamper
        forwardingAuthorizer := config.forwardingAuthorizer
        world := w }

/-- The tunnel of a peer and the world after a call on it. -/
def setTunnel (d : Device K N BYTES) (publicKey : PublicKey) (peer : Peer K) (t : Tunn K)
    (w : World K N BYTES) : Device K N BYTES :=
  { d with
    peers := d.peers.setPeer publicKey { peer with tunnel := t }
    world := w }

def setEndpoint (d : Device K N BYTES) (publicKey : PublicKey) (peer : Peer K)
    (addr : SocketAddr) : Device K N BYTES :=
  { d with peers := d.peers.setPeer publicKey { peer with endpoint := some addr } }

def handlePeerUpdate (d : Device K N BYTES) :
    Command → Call (CommandCompletion × Device K N BYTES)
  | .none => .ok (.ok .none, d)
  | .add config => do
    let (r, peers, indexGenerator, w) ← addPeerToState d.profile d.peers config d.privateKey
      d.indexGenerator d.stamper d.world
    return (r.map fun _ => .none,
      { d with peers := peers, indexGenerator := indexGenerator, world := w })
  | .update config => do
    let (r, peers) ← updatePeerInState d.profile d.peers config
    return (r.map fun _ => .none, { d with peers := peers })
  | .remove publicKey => .ok (.ok .none, { d with peers := removePeerFromState d.peers publicKey })
  | .get publicKey =>
    match d.peers.peerByKey publicKey with
    | none => .ok (.error .peerNotFound, d)
    | some peer => do
      let (stats, w) ← peer.tunnel.stats d.world
      return (.ok (.peerInfo ⟨peer.endpoint, stats⟩), { d with world := w })
  | .list => .ok (.ok (.peerKeys d.peers.peerKeys), d)

/-! ### Packets

Every scratch buffer of the event loop has `maxPacketSize` bytes. -/

def dropExpiredLoop (now : ℕ) :
    List PublicKey → Device K N BYTES → Call (ℕ × Device K N BYTES)
  | [], d => .ok (0, d)
  | publicKey :: rest, d =>
    match d.peers.peerByKey publicKey with
    | none => dropExpiredLoop now rest d
    | some peer => do
      let (dropped, t, w) ← peer.tunnel.dropExpiredQueuedPackets now d.world
      let (others, d) ← dropExpiredLoop now rest (d.setTunnel publicKey peer t w)
      return (dropped + others, d)

def dropExpiredPacketQueues (d : Device K N BYTES) : Call (ℕ × Device K N BYTES) :=
  let (now, w) := d.world.now
  dropExpiredLoop now d.peers.peerKeys { d with world := w }

/-- What is to be sent once the locks are released. -/
abbrev PendingUdpSend := Bytes × SocketAddr

def sendPendingPacket (pending : Option PendingUdpSend) : List Output :=
  pending.toList.map fun (packet, addr) => .udp packet addr

def preparePacketToPeerViaRelay (d : Device K N BYTES) (destinationKey relayKey : PublicKey)
    (packet : Bytes) : Call (Option PendingUdpSend × Device K N BYTES) :=
  match Relay.buildEnvelope maxPacketSize destinationKey packet with
  | .error _ => .ok (none, d)
  | .ok relayPlaintext => do
    let (_, d) ← d.dropExpiredPacketQueues
    match d.peers.peerByKey relayKey with
    | none => return (none, d)
    | some relayPeer =>
      let (r, t, w) ← relayPeer.tunnel.encapsulateRelay relayPlaintext maxPacketSize d.world
      let d := d.setTunnel relayKey relayPeer t w
      match r with
      | .writeToNetwork relayPacket => return (relayPeer.endpoint.map (relayPacket, ·), d)
      | .done => return (none, d)
      | .err _ => return (none, d)
      | _ => .error .unexpectedResult

def preparePacketToPeer (d : Device K N BYTES) (destinationKey : PublicKey) (packet : Bytes) :
    Call (Option PendingUdpSend × Device K N BYTES) :=
  match d.peers.peerByKey destinationKey with
  | none => .ok (none, d)
  | some peer =>
    match peer.relay with
    | some relayKey => d.preparePacketToPeerViaRelay destinationKey relayKey packet
    | none => .ok (peer.endpoint.map (packet, ·), d)

def handleTunPacket (d : Device K N BYTES) (src : Bytes) :
    Call (List Output × Device K N BYTES) :=
  match IpPacket.dstAddress src with
  | none => .ok ([], d)
  | some dstAddr => do
    match ← d.peers.peersByIp.find dstAddr with
    | none => return ([], d)
    | some publicKey =>
      let (_, d) ← d.dropExpiredPacketQueues
      match d.peers.peerByKey publicKey with
      | none => return ([], d)
      | some peer =>
        let (r, t, w) ← peer.tunnel.encapsulate src maxPacketSize d.world
        let d := d.setTunnel publicKey peer t w
        match r with
        | .done => return ([], d)
        | .err _ => return ([], d)
        | .writeToNetwork packet =>
          let (pending, d) ← d.preparePacketToPeer publicKey packet
          return (sendPendingPacket pending, d)
        | _ => .error .unexpectedResult

/-- The peer that a datagram is attributed to. -/
def peerKeyOf (d : Device K N BYTES) : Packet → Call (Option PublicKey)
  | .handshakeInit p => do
    match ← parseHandshakeAnon K d.privateKey (K.publicKey d.privateKey) p with
    | .error _ => return none
    | .ok peerStaticPublic =>
      return (PublicKey.ofBytes peerStaticPublic).filter fun key => (d.peers.peerByKey key).isSome
  | .handshakeResponse p => .ok (d.peers.peerKeyByIndex p.receiverIdx)
  | .cookieReply p => .ok (d.peers.peerKeyByIndex p.receiverIdx)
  | .data p => .ok (d.peers.peerKeyByIndex p.receiverIdx)
  | .relayData p => .ok (d.peers.peerKeyByIndex p.receiverIdx)

/-- The relay branch of `handle_udp_packet`, from the decrypted envelope on. `peerKey` is the
authenticated submitter. -/
def forwardEnvelope (d : Device K N BYTES) (peerKey : PublicKey) (relayPlaintext : Bytes) :
    Call (List Output × Device K N BYTES) :=
  match Relay.Envelope.parse relayPlaintext with
  | .error _ => .ok ([], d)
  | .ok envelope =>
    match Relay.validateInnerPacket envelope.innerPacket with
    | .error _ => .ok ([], d)
    | .ok () =>
      let destinationKey := envelope.destination
      if !d.forwardingAuthorizer peerKey destinationKey then .ok ([], d)
      else
        let destinationPeer := d.peers.peerByKey destinationKey
        match destinationPeer.bind (·.relay), destinationPeer.bind (·.endpoint) with
        | some nextRelayKey, _ => do
          let (_, d) ← d.dropExpiredPacketQueues
          match d.peers.peerByKey nextRelayKey with
          | none => return ([], d)
          | some relayPeer =>
            match envelope.decrementHopLimit with
            | .error _ => return ([], d)
            | .ok envelope =>
              let (r, t, w) ← relayPeer.tunnel.encapsulateRelay envelope.bytes maxPacketSize d.world
              let d := d.setTunnel nextRelayKey relayPeer t w
              match r with
              | .writeToNetwork nextHopPacket =>
                return (sendPendingPacket (relayPeer.endpoint.map (nextHopPacket, ·)), d)
              | .done => return ([], d)
              | .err _ => return ([], d)
              | _ => .error .unexpectedResult
        | none, some addr => .ok ([.udp envelope.innerPacket addr], d)
        | none, none => .ok ([], d)

/-- Sends what waits in the queue of a peer, at most `fuel` packets. -/
def flushQueuedPackets (peerKey : PublicKey) :
    ℕ → Device K N BYTES → Call (List Output × Device K N BYTES)
  | 0, d => .ok ([], d)
  | fuel + 1, d =>
    match d.peers.peerByKey peerKey with
    | none => .ok ([], d)
    | some peer => do
      let (r, t, w) ← peer.tunnel.flushQueuedPacket maxPacketSize d.world
      let d := d.setTunnel peerKey peer t w
      match r with
      | .writeToNetwork packet =>
        let (pending, d) ← d.preparePacketToPeer peerKey packet
        let (outputs, d) ← flushQueuedPackets peerKey fuel d
        return (sendPendingPacket pending ++ outputs, d)
      | _ => return ([], d)

/-- What is done with the answer of the tunnel, once the endpoint is up to date. -/
def finishUdpPacket (d : Device K N BYTES) (peerKey : PublicKey) (peer : Peer K) :
    TunnResult → Call (List Output × Device K N BYTES)
  | .done => .ok ([], d)
  | .err _ => .ok ([], d)
  | .writeToNetwork packet => do
    let (pending, d) ← d.preparePacketToPeer peerKey packet
    let (outputs, d) ← flushQueuedPackets peerKey maxItr d
    return (sendPendingPacket pending ++ outputs, d)
  | .writeToInterfaceV4 packet addr => do
    return (if ← peer.isAllowedIp (.v4 addr) then [.nic packet peerKey] else [], d)
  | .writeToInterfaceV6 packet addr => do
    return (if ← peer.isAllowedIp (.v6 addr) then [.nic packet peerKey] else [], d)

/-- Whether a result is not an error. -/
def isAccepted : TunnResult → Bool
  | .err _ => false
  | _ => true

/-- A datagram that passed the rate limiter and is attributed to `peerKey`. -/
def handleAttributedPacket (d : Device K N BYTES) (peerKey : PublicKey) (srcAddr : SocketAddr)
    (packet : Packet) : Call (List Output × Device K N BYTES) :=
  match d.peers.peerByKey peerKey with
  | none => .ok ([], d)
  | some peer =>
    match packet with
    | .relayData _ => do
      let (r, t) ← peer.tunnel.handleVerifiedRelayPacket packet maxPacketSize
      let d := d.setTunnel peerKey peer t d.world
      match r with
      | .error _ => return ([], d)
      | .ok relayPlaintext => d.forwardEnvelope peerKey relayPlaintext
    | _ => do
      let (r, t, w) ← peer.tunnel.handleVerifiedPacket packet maxPacketSize d.world
      let d := d.setTunnel peerKey peer t w
      let peer := { peer with tunnel := t }
      let d :=
        if isAccepted r ∧ peer.endpoint ≠ some srcAddr then d.setEndpoint peerKey peer srcAddr
        else d
      d.finishUdpPacket peerKey peer r

def handleUdpPacket (d : Device K N BYTES) (datagram : Bytes) (srcAddr : SocketAddr) :
    Call (List Output × Device K N BYTES) :=
  let (verified, rateLimiter, w) :=
    d.rateLimiter.verifyPacket (some srcAddr.ip) datagram maxPacketSize d.world
  let d := { d with rateLimiter := rateLimiter, world := w }
  match verified with
  | .error (.writeToNetwork cookie) => .ok ([.udp cookie srcAddr], d)
  | .error _ => .ok ([], d)
  | .ok packet => do
    match ← d.peerKeyOf packet with
    | none => return ([], d)
    | some peerKey =>
      let (_, d) ← d.dropExpiredPacketQueues
      d.handleAttributedPacket peerKey srcAddr packet

/-! ### Timers -/

def timerLoop : List PublicKey → Device K N BYTES → Call (List Output × Device K N BYTES)
  | [], d => .ok ([], d)
  | publicKey :: rest, d => do
    let (_, d) ← d.dropExpiredPacketQueues
    match d.peers.peerByKey publicKey with
    | none => timerLoop rest d
    | some peer =>
      let (r, t, w) ← peer.tunnel.updateTimers maxPacketSize d.world
      let d := d.setTunnel publicKey peer t w
      match r with
      | .done => timerLoop rest d
      | .err _ => timerLoop rest d
      | .writeToNetwork packet =>
        let (pending, d) ← d.preparePacketToPeer publicKey packet
        let (outputs, d) ← timerLoop rest d
        return (sendPendingPacket pending ++ outputs, d)
      | _ => .error .unexpectedResult

/-- The keys are visited in the order of `order`, if that lists them. -/
def handleTimerTick (d : Device K N BYTES) (order : List PublicKey) :
    Call (List Output × Device K N BYTES) :=
  timerLoop (if order.Perm d.peers.peerKeys then order else d.peers.peerKeys) d

/-- The tick of the event loop, which resets the rate limiter every second. -/
def tick (d : Device K N BYTES) (order : List PublicKey) :
    Call (List Output × Device K N BYTES) := do
  let (outputs, d) ← d.handleTimerTick order
  let tickCount := (d.tickCount + 1) % 256
  if 4 ≤ tickCount then
    let (rateLimiter, w) := d.rateLimiter.resetCount d.world
    return (outputs, { d with tickCount := 0, rateLimiter := rateLimiter, world := w })
  else return (outputs, { d with tickCount := tickCount })

/-! ### Events -/

/-- `reorder` is no event of the source: a hash map may iterate in any order. -/
inductive Event
  | tunPacket (packet : Bytes) (fits : packet.length ≤ mtu)
  | udpPacket (datagram : Bytes) (fits : datagram.length ≤ maxPacketSize) (src : SocketAddr)
  | tick (order : List PublicKey)
  | command (c : Command)
  | reorder (order : List PublicKey)

def step (d : Device K N BYTES) : Event → Call (List Output × Device K N BYTES)
  | .tunPacket packet _ => d.handleTunPacket packet
  | .udpPacket datagram _ src => d.handleUdpPacket datagram src.normalize
  | .tick order => d.tick order
  | .command c => do
    let (completion, d) ← d.handlePeerUpdate c
    return ([.completion completion], d)
  | .reorder order =>
    .ok ([], { d with peers := { d.peers with peers := Bounded.reorder order d.peers.peers } })

/-- Some run leads to the device's state. -/
def Reachable (d : Device K N BYTES) : Prop :=
  ∃ profile config resources draws clock secrets d₀ events outputs,
    new profile config resources draws clock secrets = .ok (.ok d₀) ∧
      Machine.run step d₀ events = .ok (outputs, d)

end Device

/-! ### A sample device -/

namespace Sample

theorem ofLe_publicKey_lt (n : ℕ) : Bytes.ofLe (Crypto.sample.publicKey (n : ℕ)) < fieldPrime :=
  calc Bytes.ofLe (Crypto.sample.publicKey (n : ℕ)) = 3 ^ n % Noise.Sample.prime :=
        Noise.Sample.ofLe_publicKey n
    _ < Noise.Sample.prime := Nat.mod_lt _ (by decide)
    _ < fieldPrime := by decide

def key (n : ℕ) : PublicKey :=
  ⟨Crypto.sample.publicKey (n : ℕ), Crypto.sample.length_publicKey _, ofLe_publicKey_lt n⟩

def addr (n : ℕ) : SocketAddr := .v4 (BitVec.ofNat 32 (0xc0000200 + n)) 51820

def net (a len : ℕ) (h : len ≤ 32) : IpNet := .v4 ⟨BitVec.ofNat 32 a, len, h⟩

def peerConfig (n : ℕ) (allowedIps : List IpNet) (relay : Option PublicKey) : PeerConfig where
  publicKey := key n
  endpoint := some (addr n)
  allowedIps := allowedIps
  keepalive := none
  relay := relay

def deviceConfig (n : ℕ) (peers : List PeerConfig) : Device.Config Crypto.sample where
  privateKey := (n : ℕ)
  forwardingAuthorizer := fun _ _ => true
  peers := peers

def resources : Device.Resources := ⟨.new, ⟨0, 0⟩⟩

def draws : Device.Draws := ⟨⟨1, by decide⟩, ⟨5, by decide⟩, [1], [2]⟩

def clock (n : ℕ) : ℕ := n * 1000

def secrets (n : ℕ) : Crypto.sample.Secret := (n + 21 : ℕ)

def innerPacket : Bytes :=
  [0x45, 0, 0, 20, 0, 0, 0, 0, 64, 17, 0, 0, 192, 168, 0, 1, 192, 168, 0, 2]

theorem length_innerPacket_le : innerPacket.length ≤ mtu := by decide

def device (n : ℕ) (peers : List PeerConfig) :
    Call (Except Device.Error (Device Crypto.sample 8 8192)) :=
  Device.new .alloc (deviceConfig n peers) resources draws clock secrets

def runAnd (n : ℕ) (peers : List PeerConfig) (events : List Device.Event)
    (p : List (List Device.Output) × Device Crypto.sample 8 8192 → Bool) : Bool :=
  okAnd (okAnd fun d => okAnd p (Machine.run Device.step d events)) (device n peers)

theorem exists_of_runAnd {n : ℕ} {peers : List PeerConfig} {events : List Device.Event}
    {p : List (List Device.Output) × Device Crypto.sample 8 8192 → Bool}
    (h : runAnd n peers events p = true) :
    ∃ start outputs d, device n peers = .ok (.ok start) ∧
      Machine.run Device.step start events = .ok (outputs, d) ∧ p (outputs, d) = true := by
  rw [runAnd] at h
  obtain ⟨r, hnew, hstarted⟩ := exists_of_okAnd h
  obtain ⟨start, rfl, hran⟩ := exists_of_okAnd hstarted
  obtain ⟨⟨outputs, d⟩, hrun, hp⟩ := exists_of_okAnd hran
  exact ⟨start, outputs, d, hnew, hrun, hp⟩

def Output.datagram : Device.Output → Option Bytes
  | .udp packet _ => some packet
  | _ => none

def datagrams (n : ℕ) (peers : List PeerConfig) (events : List Device.Event) : List Bytes :=
  match device n peers with
  | .ok (.ok d) =>
    match Machine.run Device.step d events with
    | .ok (outputs, _) => outputs.flatten.filterMap Output.datagram
    | .error _ => []
  | _ => []

theorem len_lan_le : 24 ≤ 32 := by decide

def lan : List IpNet := [net 0xc0a80000 24 len_lan_le]

def initiationOf (n m : ℕ) : Bytes :=
  (datagrams n [peerConfig m lan none] [.tunPacket innerPacket length_innerPacket_le]).head?.getD []

def forgedCookieReply (publicKey : PublicKey) (initiation : Bytes) : Bytes :=
  let mac1 := Bytes.slice initiation (initiation.length - 32) (initiation.length - 16)
  let nonce := Bytes.zeros 24
  let (ciphertext, tag) := Crypto.sample.xencrypt
    (b2sHash Crypto.sample labelCookie publicKey.bytes) nonce mac1 (Bytes.zeros 16)
  Bytes.toLe 4 MessageType.cookieReply ++ Bytes.slice initiation 4 8 ++ nonce ++ ciphertext ++ tag

end Sample

end Tendrilix
