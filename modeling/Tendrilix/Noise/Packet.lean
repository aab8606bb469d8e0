import Tendrilix.Bytes
import Tendrilix.Noise.Errors

/-!
# Wire messages

The message types, their sizes, and the parser of incoming datagrams.
-/

namespace Tendrilix.Noise

open Bytes

abbrev MessageType := ℕ

def MessageType.handshakeInit : MessageType := 1

def MessageType.handshakeResp : MessageType := 2

def MessageType.cookieReply : MessageType := 3

def MessageType.data : MessageType := 4

def MessageType.relayData : MessageType := 5

def handshakeInitSz : ℕ := 148

def handshakeRespSz : ℕ := 92

def cookieReplySz : ℕ := 64

def dataOverheadSz : ℕ := 32

structure HandshakeInit where
  senderIdx : ℕ
  unencryptedEphemeral : Bytes
  encryptedStatic : Bytes
  encryptedTimestamp : Bytes
  deriving DecidableEq

structure HandshakeResponse where
  senderIdx : ℕ
  receiverIdx : ℕ
  unencryptedEphemeral : Bytes
  encryptedNothing : Bytes
  deriving DecidableEq

structure CookieReply where
  receiverIdx : ℕ
  nonce : Bytes
  encryptedCookie : Bytes
  deriving DecidableEq

structure Data where
  receiverIdx : ℕ
  counter : ℕ
  encryptedEncapsulatedPacket : Bytes
  deriving DecidableEq

inductive Packet
  | handshakeInit (p : HandshakeInit)
  | handshakeResponse (p : HandshakeResponse)
  | cookieReply (p : CookieReply)
  | data (p : Data)
  | relayData (p : Data)
  deriving DecidableEq

def HandshakeInit.parse (src : Bytes) : HandshakeInit where
  senderIdx := ofLe (slice src 4 8)
  unencryptedEphemeral := slice src 8 40
  encryptedStatic := slice src 40 88
  encryptedTimestamp := slice src 88 116

def HandshakeResponse.parse (src : Bytes) : HandshakeResponse where
  senderIdx := ofLe (slice src 4 8)
  receiverIdx := ofLe (slice src 8 12)
  unencryptedEphemeral := slice src 12 44
  encryptedNothing := slice src 44 60

def CookieReply.parse (src : Bytes) : CookieReply where
  receiverIdx := ofLe (slice src 4 8)
  nonce := slice src 8 32
  encryptedCookie := slice src 32 64

def Data.parse (src : Bytes) : Data where
  receiverIdx := ofLe (slice src 4 8)
  counter := ofLe (slice src 8 16)
  encryptedEncapsulatedPacket := src.drop 16

def parseIncomingPacket (src : Bytes) : Outcome Packet :=
  if src.length < 4 then .error .invalidPacket
  else
    let packetType := ofLe (slice src 0 4)
    if packetType = MessageType.handshakeInit ∧ src.length = handshakeInitSz then
      .ok (.handshakeInit (.parse src))
    else if packetType = MessageType.handshakeResp ∧ src.length = handshakeRespSz then
      .ok (.handshakeResponse (.parse src))
    else if packetType = MessageType.cookieReply ∧ src.length = cookieReplySz then
      .ok (.cookieReply (.parse src))
    else if packetType = MessageType.data ∧ dataOverheadSz ≤ src.length then
      .ok (.data (.parse src))
    else if packetType = MessageType.relayData ∧ dataOverheadSz ≤ src.length then
      .ok (.relayData (.parse src))
    else .error .invalidPacket

/-! ### Parsing what the formatters write -/

theorem parseIncomingPacket_handshakeInit {senderIdx : ℕ}
    {ephemeral encryptedStatic encryptedTimestamp mac1 mac2 : Bytes} (hidx : senderIdx < 2 ^ 32)
    (hephemeral : ephemeral.length = 32) (hstatic : encryptedStatic.length = 48)
    (htimestamp : encryptedTimestamp.length = 28) (hmac1 : mac1.length = 16)
    (hmac2 : mac2.length = 16) :
    parseIncomingPacket (toLe 4 MessageType.handshakeInit ++ toLe 4 senderIdx ++ ephemeral ++
      encryptedStatic ++ encryptedTimestamp ++ mac1 ++ mac2) =
      .ok (.handshakeInit
        { senderIdx := senderIdx
          unencryptedEphemeral := ephemeral
          encryptedStatic := encryptedStatic
          encryptedTimestamp := encryptedTimestamp }) := by
  have htag := length_toLe 4 MessageType.handshakeInit
  have hsender := length_toLe 4 senderIdx
  have htype : ofLe (toLe 4 MessageType.handshakeInit) = MessageType.handshakeInit := by decide
  have hread : ofLe (toLe 4 senderIdx) = senderIdx := ofLe_toLe hidx
  simp only [List.append_assoc, parseIncomingPacket, HandshakeInit.parse, List.length_append]
  simp (disch := omega) only [slice_append_left, slice_append_right, slice_self, htag, hsender,
    hephemeral, hstatic, htimestamp, hmac1, hmac2, Nat.reduceSub]
  simp [htype, hread, handshakeInitSz]

theorem parseIncomingPacket_handshakeResponse {senderIdx receiverIdx : ℕ}
    {ephemeral encryptedNothing mac1 mac2 : Bytes} (hsender : senderIdx < 2 ^ 32)
    (hreceiver : receiverIdx < 2 ^ 32) (hephemeral : ephemeral.length = 32)
    (hnothing : encryptedNothing.length = 16) (hmac1 : mac1.length = 16)
    (hmac2 : mac2.length = 16) :
    parseIncomingPacket (toLe 4 MessageType.handshakeResp ++ toLe 4 senderIdx ++
      toLe 4 receiverIdx ++ ephemeral ++ encryptedNothing ++ mac1 ++ mac2) =
      .ok (.handshakeResponse
        { senderIdx := senderIdx
          receiverIdx := receiverIdx
          unencryptedEphemeral := ephemeral
          encryptedNothing := encryptedNothing }) := by
  have htag := length_toLe 4 MessageType.handshakeResp
  have hsenderLen := length_toLe 4 senderIdx
  have hreceiverLen := length_toLe 4 receiverIdx
  have htype : ofLe (toLe 4 MessageType.handshakeResp) = MessageType.handshakeResp := by decide
  have hne : ¬MessageType.handshakeResp = MessageType.handshakeInit := by decide
  have hreadSender : ofLe (toLe 4 senderIdx) = senderIdx := ofLe_toLe hsender
  have hreadReceiver : ofLe (toLe 4 receiverIdx) = receiverIdx := ofLe_toLe hreceiver
  simp only [List.append_assoc, parseIncomingPacket, HandshakeResponse.parse, List.length_append]
  simp (disch := omega) only [slice_append_left, slice_append_right, slice_self, htag, hsenderLen,
    hreceiverLen, hephemeral, hnothing, hmac1, hmac2, Nat.reduceSub]
  simp [htype, hne, hreadSender, hreadReceiver, handshakeRespSz]

theorem parseIncomingPacket_cookieReply {receiverIdx : ℕ} {nonce encryptedCookie : Bytes}
    (hreceiver : receiverIdx < 2 ^ 32) (hnonce : nonce.length = 24)
    (hcookie : encryptedCookie.length = 32) :
    parseIncomingPacket (toLe 4 MessageType.cookieReply ++ toLe 4 receiverIdx ++ nonce ++
      encryptedCookie) =
      .ok (.cookieReply
        { receiverIdx := receiverIdx
          nonce := nonce
          encryptedCookie := encryptedCookie }) := by
  have htag := length_toLe 4 MessageType.cookieReply
  have hreceiverLen := length_toLe 4 receiverIdx
  have htype : ofLe (toLe 4 MessageType.cookieReply) = MessageType.cookieReply := by decide
  have hinit : ¬MessageType.cookieReply = MessageType.handshakeInit := by decide
  have hresp : ¬MessageType.cookieReply = MessageType.handshakeResp := by decide
  have hread : ofLe (toLe 4 receiverIdx) = receiverIdx := ofLe_toLe hreceiver
  simp only [List.append_assoc, parseIncomingPacket, CookieReply.parse, List.length_append]
  simp (disch := omega) only [slice_append_left, slice_append_right, slice_self, htag,
    hreceiverLen, hnonce, hcookie, Nat.reduceSub]
  simp [htype, hinit, hresp, hread, cookieReplySz]

end Tendrilix.Noise
