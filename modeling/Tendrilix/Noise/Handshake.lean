import Tendrilix.Noise.Timestamper

/-!
# The handshake

The initiator and the responder recompute one transcript from different secrets, in routines that
the source writes out separately. They are kept separate here, step by step.
-/

namespace Tendrilix.Noise

open Bytes

variable {K : Crypto} {N BYTES : ℕ}

def labelMac1 : Bytes := [109, 97, 99, 49, 45, 45, 45, 45]

def labelCookie : Bytes := [99, 111, 111, 107, 105, 101, 45, 45]

def keyLen : ℕ := 32

def timestampLen : ℕ := 12

def nanosPerMilli : ℕ := 1000000

def initialChainKey : Bytes :=
  [96, 226, 109, 174, 243, 39, 239, 192, 46, 195, 53, 226, 160, 37, 210, 208, 22, 235, 66, 6, 248,
    114, 119, 245, 45, 56, 209, 152, 139, 120, 205, 54]

def initialChainHash : Bytes :=
  [34, 17, 179, 97, 8, 26, 197, 102, 105, 18, 67, 219, 69, 138, 213, 50, 45, 156, 108, 102, 34,
    147, 232, 183, 14, 225, 156, 101, 186, 7, 158, 243]

structure NoiseParams (K : Crypto) where
  staticPublic : Bytes
  staticPrivate : K.Secret
  peerStaticPublic : Bytes
  staticShared : Bytes
  sendingMac1Key : Bytes

structure HandshakeInitSentState (K : Crypto) where
  localIndex : ℕ
  hash : Bytes
  chainingKey : Bytes
  ephemeralPrivate : K.Secret
  timeSent : ℕ

inductive HandshakeState (K : Crypto)
  | none
  | initSent (s : HandshakeInitSentState K)
  | initReceived (hash chainingKey peerEphemeralPublic : Bytes) (peerIndex : ℕ)
  | expired

structure Cookies where
  lastMac1 : Option Bytes := none
  index : ℕ := 0
  writeCookie : Option Bytes := none

structure Handshake (K : Crypto) where
  params : NoiseParams K
  nextLocalIndex : ℕ
  previous : HandshakeState K := .none
  state : HandshakeState K := .none
  cookies : Cookies := {}
  lastHandshakeTimestamp : Tai64N := {}
  lastRtt : Option ℕ := none

/-- The peer's static public key of an initiation, without knowing the peer. -/
def parseHandshakeAnon (K : Crypto) (staticPrivate : K.Secret) (staticPublic : Bytes)
    (packet : HandshakeInit) : Call (Outcome Bytes) :=
  let chainingKey := initialChainKey
  let hash := b2sHash K initialChainHash staticPublic
  let peerEphemeralPublic := packet.unencryptedEphemeral
  let hash := b2sHash K hash peerEphemeralPublic
  let chainingKey := b2sHmac K (b2sHmac K chainingKey peerEphemeralPublic) [1]
  let ephemeralShared := K.diffieHellman staticPrivate peerEphemeralPublic
  let temp := b2sHmac K chainingKey ephemeralShared
  let chainingKey := b2sHmac K temp [1]
  let key := b2sHmac2 K temp chainingKey [2]
  aeadChacha20Open K keyLen key 0 packet.encryptedStatic hash

/-- What the initiator puts into a message, and the transcript afterwards. -/
structure InitiationSecrets where
  encryptedStatic : Bytes
  encryptedTimestamp : Bytes
  hash : Bytes
  chainingKey : Bytes

namespace NoiseParams

def new (staticPrivate : K.Secret) (staticPublic peerStaticPublic : Bytes) : NoiseParams K where
  staticPublic := staticPublic
  staticPrivate := staticPrivate
  peerStaticPublic := peerStaticPublic
  staticShared := K.diffieHellman staticPrivate peerStaticPublic
  sendingMac1Key := b2sHash K labelMac1 peerStaticPublic

/-- The transcript of `format_handshake_initiation`. -/
def sealInitiation (params : NoiseParams K) (ephemeralPrivate : K.Secret) (timestamp : Bytes) :
    InitiationSecrets :=
  let chainingKey := initialChainKey
  let hash := b2sHash K initialChainHash params.peerStaticPublic
  let unencryptedEphemeral := K.publicKey ephemeralPrivate
  let hash := b2sHash K hash unencryptedEphemeral
  let chainingKey := b2sHmac K (b2sHmac K chainingKey unencryptedEphemeral) [1]
  let ephemeralShared := K.diffieHellman ephemeralPrivate params.peerStaticPublic
  let temp := b2sHmac K chainingKey ephemeralShared
  let chainingKey := b2sHmac K temp [1]
  let key := b2sHmac2 K temp chainingKey [2]
  let encryptedStatic := aeadChacha20Seal K key 0 params.staticPublic hash
  let hash := b2sHash K hash encryptedStatic
  let temp := b2sHmac K chainingKey params.staticShared
  let chainingKey := b2sHmac K temp [1]
  let key := b2sHmac2 K temp chainingKey [2]
  let encryptedTimestamp := aeadChacha20Seal K key 0 timestamp hash
  let hash := b2sHash K hash encryptedTimestamp
  { encryptedStatic := encryptedStatic
    encryptedTimestamp := encryptedTimestamp
    hash := hash
    chainingKey := chainingKey }

/-- The transcript of `receive_handshake_initialization`: the timestamp, the hash and the chaining
key of a message that opens. -/
def openInitiation (params : NoiseParams K) (packet : HandshakeInit) :
    Call (Outcome (Tai64N × Bytes × Bytes)) := do
  let chainingKey := initialChainKey
  let hash := b2sHash K initialChainHash params.staticPublic
  let peerEphemeralPublic := packet.unencryptedEphemeral
  let hash := b2sHash K hash peerEphemeralPublic
  let chainingKey := b2sHmac K (b2sHmac K chainingKey peerEphemeralPublic) [1]
  let ephemeralShared := K.diffieHellman params.staticPrivate peerEphemeralPublic
  let temp := b2sHmac K chainingKey ephemeralShared
  let chainingKey := b2sHmac K temp [1]
  let key := b2sHmac2 K temp chainingKey [2]
  match ← aeadChacha20Open K keyLen key 0 packet.encryptedStatic hash with
  | .error e => return .error e
  | .ok peerStaticPublicDecrypted =>
    if params.peerStaticPublic ≠ peerStaticPublicDecrypted then return .error .wrongKey
    let hash := b2sHash K hash packet.encryptedStatic
    let temp := b2sHmac K chainingKey params.staticShared
    let chainingKey := b2sHmac K temp [1]
    let key := b2sHmac2 K temp chainingKey [2]
    match ← aeadChacha20Open K timestampLen key 0 packet.encryptedTimestamp hash with
    | .error e => return .error e
    | .ok timestamp =>
      let hash := b2sHash K hash packet.encryptedTimestamp
      return .ok (Tai64N.parse timestamp, hash, chainingKey)

/-- The transcript of `format_handshake_response`: the sealed empty message and the keys. -/
def sealResponse (params : NoiseParams K) (ephemeralPrivate : K.Secret)
    (hash chainingKey peerEphemeralPublic : Bytes) : Bytes × ResponseKeys :=
  let unencryptedEphemeral := K.publicKey ephemeralPrivate
  let hash := b2sHash K hash unencryptedEphemeral
  let temp := b2sHmac K chainingKey unencryptedEphemeral
  let chainingKey := b2sHmac K temp [1]
  let ephemeralShared := K.diffieHellman ephemeralPrivate peerEphemeralPublic
  let temp := b2sHmac K chainingKey ephemeralShared
  let chainingKey := b2sHmac K temp [1]
  let temp := b2sHmac K chainingKey (K.diffieHellman ephemeralPrivate params.peerStaticPublic)
  let chainingKey := b2sHmac K temp [1]
  let temp := b2sHmac K chainingKey (zeros 32)
  let chainingKey := b2sHmac K temp [1]
  let temp2 := b2sHmac2 K temp chainingKey [2]
  let key := b2sHmac2 K temp temp2 [3]
  let hash := b2sHash K hash temp2
  let encryptedNothing := aeadChacha20Seal K key 0 [] hash
  let temp1 := b2sHmac K chainingKey []
  let temp2 := b2sHmac K temp1 [1]
  let temp3 := b2sHmac2 K temp1 temp2 [2]
  (encryptedNothing,
    { responseKey := key, responseHash := hash, receivingKey := temp2, sendingKey := temp3 })

/-- The transcript of `receive_handshake_response`: the keys, when the response opens. -/
def openResponse (params : NoiseParams K) (state : HandshakeInitSentState K)
    (packet : HandshakeResponse) : Call (Outcome ResponseKeys) := do
  let unencryptedEphemeral := packet.unencryptedEphemeral
  let hash := b2sHash K state.hash unencryptedEphemeral
  let temp := b2sHmac K state.chainingKey unencryptedEphemeral
  let chainingKey := b2sHmac K temp [1]
  let ephemeralShared := K.diffieHellman state.ephemeralPrivate unencryptedEphemeral
  let temp := b2sHmac K chainingKey ephemeralShared
  let chainingKey := b2sHmac K temp [1]
  let temp := b2sHmac K chainingKey (K.diffieHellman params.staticPrivate unencryptedEphemeral)
  let chainingKey := b2sHmac K temp [1]
  let temp := b2sHmac K chainingKey (zeros 32)
  let chainingKey := b2sHmac K temp [1]
  let temp2 := b2sHmac2 K temp chainingKey [2]
  let key := b2sHmac2 K temp temp2 [3]
  let hash := b2sHash K hash temp2
  match ← aeadChacha20Open K 0 key 0 packet.encryptedNothing hash with
  | .error e => return .error e
  | .ok _ =>
    let temp1 := b2sHmac K chainingKey []
    let temp2 := b2sHmac K temp1 [1]
    let temp3 := b2sHmac2 K temp1 temp2 [2]
    return .ok
      { responseKey := key, responseHash := hash, receivingKey := temp3, sendingKey := temp2 }

end NoiseParams

namespace HandshakeState

def initSent? : HandshakeState K → Option (HandshakeInitSentState K)
  | initSent s => some s
  | _ => Option.none

end HandshakeState

/-- The upper 24 bits are the peer index, the lower 8 bits cycle over the peer's sessions. -/
def nextIndex (index : ℕ) : ℕ := index / 256 * 256 + (index % 256 + 1) % 256

namespace Handshake

def new (staticPrivate : K.Secret) (staticPublic peerStaticPublic : Bytes) (peerIndex : ℕ) :
    Handshake K where
  params := .new staticPrivate staticPublic peerStaticPublic
  nextLocalIndex := peerIndex * 2 ^ 8 % 2 ^ 32

def isInProgress (h : Handshake K) : Bool :=
  match h.state with
  | .none | .expired => false
  | _ => true

def timer (h : Handshake K) : Option ℕ := h.state.initSent?.map (·.timeSent)

def setExpired (h : Handshake K) : Handshake K := { h with previous := .expired, state := .expired }

def isExpired (h : Handshake K) : Bool :=
  match h.state with
  | .expired => true
  | _ => false

def hasCookie (h : Handshake K) : Bool := h.cookies.writeCookie.isSome

def clearCookie (h : Handshake K) : Handshake K :=
  { h with cookies := { h.cookies with writeCookie := none } }

def allocateLocalIndex (h : Handshake K) : ℕ × Handshake K :=
  (h.nextLocalIndex, { h with nextLocalIndex := nextIndex h.nextLocalIndex })

/-- Appends both MACs to a handshake message. `msg` is the message up to its first MAC. -/
def appendMac1AndMac2 (h : Handshake K) (localIndex : ℕ) (msg : Bytes) : Bytes × Handshake K :=
  let msgMac1 := b2sKeyedMac16 K h.params.sendingMac1Key msg
  let msgMac2 :=
    match h.cookies.writeCookie with
    | some cookie => b2sKeyedMac16 K cookie (msg ++ msgMac1)
    | none => zeros 16
  (msg ++ msgMac1 ++ msgMac2,
    { h with cookies := { h.cookies with index := localIndex, lastMac1 := some msgMac1 } })

def formatHandshakeInitiation (h : Handshake K) (dstLen : ℕ) (stamper : TimeStamper)
    (w : World K N BYTES) : Call (Outcome Bytes × Handshake K × World K N BYTES) :=
  if dstLen < handshakeInitSz then .ok (.error .destinationBufferTooSmall, h, w)
  else do
    let (localIndex, h) := h.allocateLocalIndex
    let (ephemeralPrivate, w) := w.drawSecret
    let (timestamp, w) ← stamper.stamp w
    let secrets := h.params.sealInitiation ephemeralPrivate timestamp
    let (timeNow, w) := w.now
    let sent : HandshakeInitSentState K :=
      { localIndex := localIndex
        chainingKey := secrets.chainingKey
        hash := secrets.hash
        ephemeralPrivate := ephemeralPrivate
        timeSent := timeNow }
    let h := { h with previous := h.state, state := .initSent sent }
    let (packet, h) := h.appendMac1AndMac2 localIndex
      (toLe 4 MessageType.handshakeInit ++ toLe 4 localIndex ++ K.publicKey ephemeralPrivate ++
        secrets.encryptedStatic ++ secrets.encryptedTimestamp)
    return (.ok packet, h, w)

/-- Answers the initiation that `state` holds, and derives the responder's session. -/
def formatHandshakeResponse (h : Handshake K) (dstLen : ℕ) (w : World K N BYTES) :
    Call (Outcome (Bytes × Session) × Handshake K × World K N BYTES) :=
  if dstLen < handshakeRespSz then .ok (.error .destinationBufferTooSmall, h, w)
  else
    match h.state with
    | .initReceived hash chainingKey peerEphemeralPublic peerIndex =>
      let h := { h with state := .none }
      let (ephemeralPrivate, w) := w.drawSecret
      let (localIndex, h) := h.allocateLocalIndex
      let (encryptedNothing, keys) :=
        h.params.sealResponse ephemeralPrivate hash chainingKey peerEphemeralPublic
      let (packet, h) := h.appendMac1AndMac2 localIndex
        (toLe 4 MessageType.handshakeResp ++ toLe 4 localIndex ++ toLe 4 peerIndex ++
          K.publicKey ephemeralPrivate ++ encryptedNothing)
      let w := w.establish ephemeralPrivate keys
      .ok (.ok (packet, Session.new localIndex peerIndex keys.receivingKey keys.sendingKey), h, w)
    | _ => .error .unexpectedState

def receiveHandshakeInitialization (h : Handshake K) (packet : HandshakeInit) (dstLen : ℕ)
    (w : World K N BYTES) : Call (Outcome (Bytes × Session) × Handshake K × World K N BYTES) := do
  match ← h.params.openInitiation packet with
  | .error e => return (.error e, h, w)
  | .ok (timestamp, hash, chainingKey) =>
    -- An initiation that is not newer than the last one is possibly a replay.
    if !timestamp.after h.lastHandshakeTimestamp then return (.error .wrongTimestamp, h, w)
    let h := { h with
      lastHandshakeTimestamp := timestamp
      previous := h.state
      state := .initReceived hash chainingKey packet.unencryptedEphemeral packet.senderIdx }
    h.formatHandshakeResponse dstLen w

/-- The handshake awaiting the response to `receiverIdx`: the current one first. -/
def expected (h : Handshake K) (receiverIdx : ℕ) : Option (HandshakeInitSentState K) :=
  (h.state.initSent?.filter (·.localIndex = receiverIdx)).or
    (h.previous.initSent?.filter (·.localIndex = receiverIdx))

/-- Removes the handshake that has been answered, so that it is answered only once. -/
def consume (h : Handshake K) (receiverIdx : ℕ) : Handshake K :=
  if h.state.initSent?.any (·.localIndex = receiverIdx) then { h with state := .none }
  else { h with previous := .none }

def receiveHandshakeResponse (h : Handshake K) (packet : HandshakeResponse)
    (w : World K N BYTES) : Call (Outcome Session × Handshake K × World K N BYTES) :=
  match h.expected packet.receiverIdx with
  | none => .ok (.error .unexpectedPacket, h, w)
  | some state => do
    match ← h.params.openResponse state packet with
    | .error e => return (.error e, h, w)
    | .ok keys =>
      let (now, w) := w.now
      let h := { h with lastRtt := some ((now - state.timeSent) / nanosPerMilli % 2 ^ 32) }
      let session := Session.new state.localIndex packet.senderIdx keys.receivingKey keys.sendingKey
      return (.ok session, h.consume packet.receiverIdx, w.establish state.ephemeralPrivate keys)

def receiveCookieReply (h : Handshake K) (packet : CookieReply) :
    Call (Outcome Unit × Handshake K) :=
  match h.cookies.lastMac1 with
  | none => .ok (.error .unexpectedPacket, h)
  | some mac1 =>
    if packet.receiverIdx ≠ h.cookies.index then .ok (.error .wrongIndex, h)
    else
      let key := b2sHash K labelCookie h.params.peerStaticPublic
      if packet.encryptedCookie.length < 16 then .ok (.error .invalidPacket, h)
      else
        let ctLen := packet.encryptedCookie.length - 16
        let ciphertext := packet.encryptedCookie.take ctLen
        let tag := packet.encryptedCookie.drop ctLen
        if ciphertext.length ≠ 16 then .error .lengthMismatch
        else
          match K.xdecrypt key packet.nonce mac1 ciphertext tag with
          | none => .ok (.error .invalidAeadTag, h)
          | some cookie =>
            .ok (.ok (), { h with cookies := { h.cookies with writeCookie := some cookie } })

end Handshake

end Tendrilix.Noise
