import Tendrilix.Noise.Mirror
import Tendrilix.Noise.RateLimiter

/-!
# The cookie exchange

A responder under load answers a handshake message with a cookie, sealed for the first MAC of that
message. The sender of the message opens it, and authenticates its next message with it.
-/

namespace Tendrilix.Noise

open Bytes

variable {K : Crypto} {N BYTES : ℕ}

/-- XChaCha20-Poly1305 does not open under associated data of the same length that is not the same. -/
def Crypto.BindsData (K : Crypto) : Prop :=
  ∀ k n a a' m, a.length = 16 → a'.length = 16 → a ≠ a' →
    K.xdecrypt k n a' (K.xencrypt k n a m).1 (K.xencrypt k n a m).2 = none

theorem length_b2sKeyedMac16 (K : Crypto) (key data : Bytes) : (b2sKeyedMac16 K key data).length = 16 :=
  K.length_mac16 key data

def mac1Of (message : Bytes) : Bytes := slice message (message.length - 32) (message.length - 16)

def senderOf (message : Bytes) : Option ℕ :=
  match parseIncomingPacket message with
  | .ok packet => RateLimiter.handshakeSender packet
  | .error _ => none

theorem senderOf_of_parse {message : Bytes} {packet : Packet}
    (h : parseIncomingPacket message = .ok packet) :
    senderOf message = RateLimiter.handshakeSender packet := by
  rw [senderOf, h]

def cookieReplyOf (K : Crypto) (key nonce : Bytes) (idx : ℕ) (cookie mac1 : Bytes) : CookieReply where
  receiverIdx := idx
  nonce := nonce
  encryptedCookie := (K.xencrypt key nonce mac1 cookie).1 ++ (K.xencrypt key nonce mac1 cookie).2

/-! ### The responder -/

namespace RateLimiter

variable {l l' : RateLimiter} {w : World K N BYTES} {datagram reply : Bytes} {dstLen : ℕ}

structure Serves (K : Crypto) (l : RateLimiter) (publicKey : Bytes) : Prop where
  mac1Key : l.mac1Key = b2sHash K labelMac1 publicKey
  cookieKey : l.cookieKey = b2sHash K labelCookie publicKey

def cookiePeriod (l : RateLimiter) (w : World K N BYTES) : ℕ :=
  (w.clock w.reads - l.startTime) / fromSecs 1 / cookieRefresh

structure Same (l l' : RateLimiter) : Prop where
  nonceKey : l'.nonceKey = l.nonceKey
  secretKey : l'.secretKey = l.secretKey
  startTime : l'.startTime = l.startTime
  mac1Key : l'.mac1Key = l.mac1Key
  cookieKey : l'.cookieKey = l.cookieKey
  limit : l'.limit = l.limit

theorem Same.refl (l : RateLimiter) : l.Same l := ⟨rfl, rfl, rfl, rfl, rfl, rfl⟩

theorem Same.trans {l'' : RateLimiter} (h : l.Same l') (h' : l'.Same l'') : l.Same l'' :=
  ⟨h'.nonceKey.trans h.nonceKey, h'.secretKey.trans h.secretKey, h'.startTime.trans h.startTime,
    h'.mac1Key.trans h.mac1Key, h'.cookieKey.trans h.cookieKey, h'.limit.trans h.limit⟩

theorem formatCookieReply_same (K : Crypto) (l : RateLimiter) (idx : ℕ) (cookie mac1 : Bytes)
    (dstLen : ℕ) : l.Same (l.formatCookieReply K idx cookie mac1 dstLen).2 := by
  rw [formatCookieReply]
  split
  · exact .refl l
  · exact ⟨rfl, rfl, rfl, rfl, rfl, rfl⟩

theorem resetCount_same (l : RateLimiter) (w : World K N BYTES) : l.Same (l.resetCount w).1 := by
  rw [resetCount]
  dsimp only
  split
  · exact ⟨rfl, rfl, rfl, rfl, rfl, rfl⟩
  · exact .refl l

theorem isUnderLoad_same (l : RateLimiter) : l.Same l.isUnderLoad.2 := ⟨rfl, rfl, rfl, rfl, rfl, rfl⟩

theorem verifyPacket_same (l : RateLimiter) (src : Option IpAddr) (datagram : Bytes) (dstLen : ℕ)
    (w : World K N BYTES) : l.Same (l.verifyPacket src datagram dstLen w).2.1 := by
  have hreply : ∀ idx cookie r l', l.isUnderLoad.2.formatCookieReply K idx cookie
      (mac1Of datagram) dstLen = (r, l') → l.Same l' := by
    intro idx cookie r l' h
    have hsame := formatCookieReply_same K l.isUnderLoad.2 idx cookie (mac1Of datagram) dstLen
    rw [h] at hsame
    exact l.isUnderLoad_same.trans hsame
  have h := verifyPacket_verdict l src datagram dstLen w
  generalize l.verifyPacket src datagram dstLen w = result at h ⊢
  cases h with
  | malformed parse => exact .refl l
  | unlimited parse sender => exact .refl l
  | invalidMac => exact .refl l
  | refused reply => exact hreply _ _ _ _ reply
  | answered parse sender load source reply => exact hreply _ _ _ _ reply
  | _ => exact l.isUnderLoad_same

inductive Step (K : Crypto) (N BYTES : ℕ) (l : RateLimiter) : RateLimiter → Prop
  | verifyPacket (src : Option IpAddr) (datagram : Bytes) (dstLen : ℕ) (w : World K N BYTES) :
      Step K N BYTES l (l.verifyPacket src datagram dstLen w).2.1
  | resetCount (w : World K N BYTES) : Step K N BYTES l (l.resetCount w).1

theorem same_of_steps (h : Relation.ReflTransGen (Step K N BYTES) l l') : l.Same l' := by
  induction h with
  | refl => exact .refl l
  | tail _ hstep ih =>
    apply ih.trans
    cases hstep with
    | verifyPacket src datagram dstLen w => exact verifyPacket_same _ src datagram dstLen w
    | resetCount w => exact resetCount_same _ w

theorem currentCookie_congr {N' BYTES' : ℕ} {w' : World K N' BYTES'} (h : l.Same l') (addr : IpAddr)
    (hperiod : l'.cookiePeriod w' = l.cookiePeriod w) :
    (l'.currentCookie addr w').1 = (l.currentCookie addr w).1 := by
  change b2sKeyedMac16Two K l'.secretKey (toLe 8 (l'.cookiePeriod w')) (addrBytes addr) =
    b2sKeyedMac16Two K l.secretKey (toLe 8 (l.cookiePeriod w)) (addrBytes addr)
  rw [hperiod, h.secretKey]

theorem ofLe_slice_lt (bs : Bytes) : ofLe (slice bs 4 8) < 2 ^ 32 := by
  have hlen : (slice bs 4 8).length ≤ 4 := List.length_take_le _ _
  have hlt := ofLe_lt (slice bs 4 8)
  have hpow : 256 ^ (slice bs 4 8).length ≤ 256 ^ 4 := Nat.pow_le_pow_right (by decide) hlen
  omega

theorem length_currentCookie (l : RateLimiter) (addr : IpAddr) (w : World K N BYTES) :
    (l.currentCookie addr w).1.length = 16 := K.length_mac16 _ _

theorem handshakeSender_lt {packet : Packet} {senderIdx : ℕ}
    (hparse : parseIncomingPacket datagram = .ok packet)
    (hsender : handshakeSender packet = some senderIdx) : senderIdx < 2 ^ 32 := by
  have hlt := ofLe_slice_lt datagram
  rw [parseIncomingPacket] at hparse
  dsimp only at hparse
  repeat' split at hparse
  all_goals cases hparse
  all_goals cases hsender
  · exact hlt
  · exact hlt

theorem length_mac1Of {packet : Packet} {senderIdx : ℕ}
    (hparse : parseIncomingPacket datagram = .ok packet)
    (hsender : handshakeSender packet = some senderIdx) : (mac1Of datagram).length = 16 := by
  have hlen : 32 ≤ datagram.length := by
    rw [parseIncomingPacket] at hparse
    dsimp only at hparse
    split at hparse
    · cases hparse
    split at hparse
    · rename_i hinit
      exact (by decide : 32 ≤ handshakeInitSz).trans hinit.2.ge
    split at hparse
    · rename_i hresp
      exact (by decide : 32 ≤ handshakeRespSz).trans hresp.2.ge
    repeat' split at hparse
    all_goals cases hparse
    all_goals cases hsender
  rw [mac1Of, length_slice (Nat.sub_le _ _)]
  omega

theorem formatCookieReply_parse {idx : ℕ} {cookie mac1 : Bytes} (hidx : idx < 2 ^ 32)
    (hcookie : cookie.length = 16)
    (h : (l.formatCookieReply K idx cookie mac1 dstLen).1 = .ok reply) :
    ∃ nonce, parseIncomingPacket reply =
      .ok (.cookieReply (cookieReplyOf K l.cookieKey nonce idx cookie mac1)) := by
  rw [formatCookieReply] at h
  split at h
  · cases h
  · cases h
    refine ⟨(l.nonce K).1, ?_⟩
    rw [List.append_assoc _ _ (K.xencrypt _ _ _ _).2]
    apply parseIncomingPacket_cookieReply hidx (K.length_mac24 _ _)
    rw [List.length_append, K.length_xencrypt, K.length_xtag, hcookie]

theorem verifyPacket_answer {src : Option IpAddr}
    (h : (l.verifyPacket src datagram dstLen w).1 = .error (.writeToNetwork reply)) :
    ∃ packet senderIdx addr nonce, parseIncomingPacket datagram = .ok packet ∧
      handshakeSender packet = some senderIdx ∧ src = some addr ∧
      parseIncomingPacket reply = .ok (.cookieReply
        (cookieReplyOf K l.cookieKey nonce senderIdx (l.currentCookie addr w).1
          (mac1Of datagram))) := by
  have hverdict := verifyPacket_verdict l src datagram dstLen w
  revert h
  generalize l.verifyPacket src datagram dstLen w = result at hverdict ⊢
  intro h
  cases hverdict with
  | @answered packet senderIdx addr cookiePacket l' parse sender load source format =>
    cases h
    obtain ⟨nonce, hreply⟩ := formatCookieReply_parse (handshakeSender_lt parse sender)
      (K.length_mac16 _ _) (congrArg Prod.fst format)
    exact ⟨packet, senderIdx, addr, nonce, parse, sender, source, hreply⟩
  | _ => cases h

section Macs

variable {body mac1 mac2 : Bytes} (hmac1 : mac1.length = 16) (hmac2 : mac2.length = 16)

include hmac1 hmac2

theorem take_macs : (body ++ mac1 ++ mac2).take ((body ++ mac1 ++ mac2).length - 32) = body := by
  have hlen : (body ++ mac1 ++ mac2).length - 32 = body.length := by
    rw [List.length_append, List.length_append]
    omega
  rw [hlen, List.append_assoc, List.take_left]

theorem mac1Of_append : mac1Of (body ++ mac1 ++ mac2) = mac1 := by
  have hlen : (body ++ mac1 ++ mac2).length = body.length + 32 := by
    rw [List.length_append, List.length_append]
    omega
  have hend : body.length + 32 - 16 ≤ (body ++ mac1).length := by
    rw [List.length_append]
    omega
  have hbody : body.length ≤ body.length + 32 - 32 := by omega
  rw [mac1Of, hlen, slice_append_left hend, slice_append_right hbody, Nat.add_sub_cancel,
    Nat.sub_self]
  exact slice_self (by omega)

theorem slice_mac2 : slice (body ++ mac1 ++ mac2) ((body ++ mac1 ++ mac2).length - 16)
    (body ++ mac1 ++ mac2).length = mac2 := by
  have hlen : (body ++ mac1).length = body.length + 16 := by rw [List.length_append, hmac1]
  rw [List.length_append, slice_append_right (by omega)]
  have hzero : (body ++ mac1).length + mac2.length - 16 - (body ++ mac1).length = 0 := by omega
  rw [hzero]
  exact slice_self (by omega)

theorem verifyPacket_accepts {packet : Packet} {addr : IpAddr}
    (hparse : parseIncomingPacket (body ++ mac1 ++ mac2) = .ok packet)
    (hright1 : b2sKeyedMac16 K l.mac1Key body = mac1)
    (hright2 : b2sKeyedMac16 K (l.currentCookie addr w).1 (body ++ mac1) = mac2) :
    (l.verifyPacket (some addr) (body ++ mac1 ++ mac2) dstLen w).1 = .ok packet := by
  have hcookie : b2sKeyedMac16Two K (l.isUnderLoad.2.currentCookie addr w).1 body mac1 = mac2 :=
    hright2
  have hslice : slice (body ++ mac1 ++ mac2) ((body ++ mac1 ++ mac2).length - 32)
      ((body ++ mac1 ++ mac2).length - 16) = mac1 := mac1Of_append hmac1 hmac2
  rw [verifyPacket, hparse]
  dsimp only
  split
  · rfl
  · rw [take_macs hmac1 hmac2, hslice, slice_mac2 hmac1 hmac2, if_neg (not_not.mpr hright1)]
    cases hload : l.isUnderLoad.1 with
    | false => rfl
    | true =>
      simp only [Bool.not_true, Bool.false_eq_true, if_false, hcookie, if_true]

end Macs

end RateLimiter

/-! ### The sender of the message -/

theorem TimeStamper.length_stamp {stamper : TimeStamper} {w w' : World K N BYTES} {timestamp : Bytes}
    (h : stamper.stamp w = .ok (timestamp, w')) : timestamp.length = timestampLen := by
  obtain ⟨timestamp', hstamp, h⟩ := bind_ok_iff.mp h
  cases h
  exact length_stampAt hstamp

namespace Handshake

variable {h h' : Handshake K} {w w' : World K N BYTES} {dstLen : ℕ} {message : Bytes}

structure Formats (h : Handshake K) (message : Bytes) (h' : Handshake K) : Prop where
  params_eq : h'.params = h.params
  writeCookie_eq : h'.cookies.writeCookie = h.cookies.writeCookie
  macs : ∃ body mac2 packet, message = body ++ b2sKeyedMac16 K h.params.sendingMac1Key body ++ mac2 ∧
    mac2.length = 16 ∧ h'.cookies.lastMac1 = some (b2sKeyedMac16 K h.params.sendingMac1Key body) ∧
    (∀ cookie, h.cookies.writeCookie = some cookie →
      mac2 = b2sKeyedMac16 K cookie (body ++ b2sKeyedMac16 K h.params.sendingMac1Key body)) ∧
    parseIncomingPacket message = .ok packet ∧
    RateLimiter.handshakeSender packet = some h'.cookies.index

theorem appendMac1AndMac2_formats {localIndex : ℕ} {body : Bytes} {packet : Packet}
    (hparse : ∀ mac1 mac2 : Bytes, mac1.length = 16 → mac2.length = 16 →
      parseIncomingPacket (body ++ mac1 ++ mac2) = .ok packet)
    (hsender : RateLimiter.handshakeSender packet = some localIndex) :
    Formats h (h.appendMac1AndMac2 localIndex body).1 (h.appendMac1AndMac2 localIndex body).2 where
  params_eq := rfl
  writeCookie_eq := rfl
  macs := by
    have hmac1 := K.length_mac16 h.params.sendingMac1Key body
    cases hcookie : h.cookies.writeCookie with
    | none =>
      have hp := hparse _ (zeros 16) hmac1 (length_zeros 16)
      rw [appendMac1AndMac2, hcookie]
      exact ⟨body, zeros 16, packet, rfl, length_zeros 16, rfl, nofun, hp, hsender⟩
    | some cookie =>
      have hmac2 := K.length_mac16 cookie (body ++ K.mac16 h.params.sendingMac1Key body)
      have hp := hparse _ _ hmac1 hmac2
      rw [appendMac1AndMac2, hcookie]
      refine ⟨body, _, packet, rfl, hmac2, rfl, ?_, hp, hsender⟩
      rintro _ ⟨⟩
      rfl

theorem formatHandshakeInitiation_formats {stamper : TimeStamper} (hidx : h.nextLocalIndex < 2 ^ 32)
    (hpublic : h.params.staticPublic.length = 32)
    (call : h.formatHandshakeInitiation dstLen stamper w = .ok (.ok message, h', w')) :
    Formats h message h' := by
  rw [formatHandshakeInitiation] at call
  split at call
  · cases call
  · obtain ⟨⟨timestamp, w₁⟩, hstamp, call⟩ := bind_ok_iff.mp call
    have htimestamp : (h.params.sealInitiation (w.secrets w.draws) timestamp).encryptedTimestamp.length
        = 28 := by
      rw [NoiseParams.length_encryptedTimestamp, TimeStamper.length_stamp hstamp]
      rfl
    have hstatic : (h.params.sealInitiation (w.secrets w.draws) timestamp).encryptedStatic.length =
        48 := by
      rw [NoiseParams.length_encryptedStatic, hpublic]
    have hparse := fun (mac1 mac2 : Bytes) (hmac1 : mac1.length = 16) (hmac2 : mac2.length = 16) =>
      parseIncomingPacket_handshakeInit hidx (K.length_publicKey (w.secrets w.draws)) hstatic
        htimestamp hmac1 hmac2
    cases call
    have hformats := appendMac1AndMac2_formats (h := h) hparse rfl
    exact ⟨hformats.params_eq, hformats.writeCookie_eq, hformats.macs⟩

theorem receiveHandshakeInitialization_formats {p : HandshakeInit} {session : Session}
    (hidx : h.nextLocalIndex < 2 ^ 32) (hsender : p.senderIdx < 2 ^ 32)
    (call : h.receiveHandshakeInitialization p dstLen w = .ok (.ok (message, session), h', w')) :
    Formats h message h' := by
  obtain ⟨timestamp, hash, chainingKey, -, -, call⟩ := receiveHandshakeInitialization_format call
  rw [formatHandshakeResponse] at call
  split at call
  · cases call
  · have hparse := fun (mac1 mac2 : Bytes) (hmac1 : mac1.length = 16) (hmac2 : mac2.length = 16) =>
      parseIncomingPacket_handshakeResponse hidx hsender (K.length_publicKey (w.secrets w.draws))
        (length_encryptedNothing h.params (w.secrets w.draws) hash chainingKey
          p.unencryptedEphemeral) hmac1 hmac2
    cases call
    have hformats := appendMac1AndMac2_formats (h := h) hparse rfl
    exact ⟨hformats.params_eq, hformats.writeCookie_eq, hformats.macs⟩

/-! ### Runs of the sender -/

inductive Op
  | formatHandshakeInitiation (dstLen : ℕ) (stamper : TimeStamper)
  | receive (datagram : Bytes) (dstLen : ℕ)
  | setExpired
  | clearCookie

def step (s : Handshake K × World K N BYTES) :
    Op → Call (Option Bytes × Handshake K × World K N BYTES)
  | .formatHandshakeInitiation dstLen stamper => do
    let (r, h, w) ← s.1.formatHandshakeInitiation dstLen stamper s.2
    return (r.toOption, h, w)
  | .receive datagram dstLen =>
    match parseIncomingPacket datagram with
    | .ok (.handshakeInit p) => do
      let (r, h, w) ← s.1.receiveHandshakeInitialization p dstLen s.2
      return (r.toOption.map Prod.fst, h, w)
    | .ok (.handshakeResponse p) => do
      let (_, h, w) ← s.1.receiveHandshakeResponse p s.2
      return (none, h, w)
    | .ok (.cookieReply p) => do
      let (_, h) ← s.1.receiveCookieReply p
      return (none, h, s.2)
    | _ => .ok (none, s)
  | .setExpired => .ok (none, s.1.setExpired, s.2)
  | .clearCookie => .ok (none, s.1.clearCookie, s.2)

/-- The call leaves the cookie alone: it does not drop it, and accepts no cookie reply. -/
def KeepsCookie (s : Handshake K × World K N BYTES) : Op → Prop
  | .clearCookie => False
  | .receive datagram _ => ∀ p, parseIncomingPacket datagram = .ok (.cookieReply p) →
      ∀ h', s.1.receiveCookieReply p ≠ .ok (.ok (), h')
  | _ => True

variable {s s' : Handshake K × World K N BYTES} {op : Op}

structure Waits (s : Handshake K × World K N BYTES) (op : Op) (h' : Handshake K) : Prop where
  params_eq : h'.params = s.1.params
  next_eq : h'.nextLocalIndex = s.1.nextLocalIndex
  index_eq : h'.cookies.index = s.1.cookies.index
  lastMac1_eq : h'.cookies.lastMac1 = s.1.cookies.lastMac1
  writeCookie_eq : KeepsCookie s op → h'.cookies.writeCookie = s.1.cookies.writeCookie

theorem Waits.of_eq (hparams : h'.params = s.1.params) (hnext : h'.nextLocalIndex = s.1.nextLocalIndex)
    (hcookies : h'.cookies = s.1.cookies) : Waits s op h' :=
  ⟨hparams, hnext, by rw [hcookies], by rw [hcookies], fun _ => by rw [hcookies]⟩

theorem step_waits (call : step s op = .ok (none, s')) : Waits s op s'.1 := by
  cases op with
  | formatHandshakeInitiation dstLen stamper =>
    obtain ⟨⟨r, h, w⟩, hformat, call⟩ := bind_ok_iff.mp call
    cases r with
    | ok message => cases call
    | error e =>
      cases call
      obtain ⟨rfl, rfl⟩ := formatHandshakeInitiation_error hformat
      exact .of_eq rfl rfl rfl
  | receive datagram dstLen =>
    rw [step] at call
    split at call
    · obtain ⟨⟨r, h, w⟩, hreceive, call⟩ := bind_ok_iff.mp call
      cases r with
      | ok answer => cases call
      | error e =>
        cases call
        obtain ⟨-, rfl | ⟨timestamp, hash, chainingKey, -, -, rfl⟩⟩ :=
          receiveHandshakeInitialization_error hreceive
        · exact .of_eq rfl rfl rfl
        · exact .of_eq rfl rfl rfl
    · obtain ⟨⟨r, h, w⟩, hreceive, call⟩ := bind_ok_iff.mp call
      cases call
      cases r with
      | error e =>
        obtain ⟨rfl, rfl⟩ := receiveHandshakeResponse_error hreceive
        exact .of_eq rfl rfl rfl
      | ok session =>
        obtain ⟨state, keys, -, -, -, ⟨rtt, rfl⟩, -⟩ := receiveHandshakeResponse_ok hreceive
        exact .of_eq (consume_params _ _) (consume_nextLocalIndex _ _) (consume_cookies _ _)
    · rename_i p hparse
      obtain ⟨⟨r, h⟩, hreceive, call⟩ := bind_ok_iff.mp call
      cases call
      cases r with
      | error e =>
        rw [receiveCookieReply_error hreceive]
        exact .of_eq rfl rfl rfl
      | ok u =>
        obtain ⟨writeCookie, rfl⟩ := receiveCookieReply_cookies hreceive
        exact ⟨rfl, rfl, rfl, rfl, fun hkeeps => absurd hreceive (hkeeps p hparse _)⟩
    · cases call
      exact .of_eq rfl rfl rfl
  | setExpired =>
    cases call
    exact .of_eq rfl rfl rfl
  | clearCookie =>
    cases call
    exact ⟨rfl, rfl, rfl, rfl, False.elim⟩

structure Configured (h : Handshake K) (publicKey : Bytes) : Prop where
  peer : h.params.peerStaticPublic = publicKey
  mac1Key : h.params.sendingMac1Key = b2sHash K labelMac1 publicKey
  length_public : h.params.staticPublic.length = 32
  next_lt : h.nextLocalIndex < 2 ^ 32

theorem new_configured (staticPrivate : K.Secret) (publicKey : Bytes) (peerIndex : ℕ) :
    (Handshake.new staticPrivate (K.publicKey staticPrivate) publicKey peerIndex).Configured
      publicKey where
  peer := rfl
  mac1Key := rfl
  length_public := K.length_publicKey staticPrivate
  next_lt := Nat.mod_lt _ (by decide)

theorem nextIndex_lt {index : ℕ} (h : index < 2 ^ 32) : nextIndex index < 2 ^ 32 := by
  rw [nextIndex]
  omega

theorem step_formats {publicKey : Bytes} (hs : s.1.Configured publicKey)
    (call : step s op = .ok (some message, s')) :
    Formats s.1 message s'.1 ∧ s'.1.nextLocalIndex = nextIndex s.1.nextLocalIndex := by
  cases op with
  | formatHandshakeInitiation dstLen stamper =>
    obtain ⟨⟨r, h, w⟩, hformat, call⟩ := bind_ok_iff.mp call
    cases r with
    | error e => cases call
    | ok packet =>
      cases call
      refine ⟨formatHandshakeInitiation_formats hs.next_lt hs.length_public hformat, ?_⟩
      obtain ⟨sent, cookies, -, -, rfl, -⟩ := formatHandshakeInitiation_ok hformat
      rfl
  | receive datagram dstLen =>
    rw [step] at call
    split at call
    · rename_i p hparse
      obtain ⟨⟨r, h, w⟩, hreceive, call⟩ := bind_ok_iff.mp call
      cases r with
      | error e => cases call
      | ok answer =>
        cases call
        have hsender : p.senderIdx < 2 ^ 32 := RateLimiter.handshakeSender_lt hparse rfl
        refine ⟨receiveHandshakeInitialization_formats hs.next_lt hsender hreceive, ?_⟩
        obtain ⟨timestamp, hash, chainingKey, keys, cookies, -, -, -, rfl, -⟩ :=
          receiveHandshakeInitialization_ok hreceive
        rfl
    · obtain ⟨⟨r, h, w⟩, -, call⟩ := bind_ok_iff.mp call
      cases call
    · obtain ⟨⟨r, h⟩, -, call⟩ := bind_ok_iff.mp call
      cases call
    · cases call
  | setExpired => cases call
  | clearCookie => cases call

theorem step_configured {publicKey : Bytes} {r : Option Bytes} (hs : s.1.Configured publicKey)
    (call : step s op = .ok (r, s')) : s'.1.Configured publicKey := by
  cases r with
  | none =>
    have hwaits := step_waits call
    refine ⟨?_, ?_, ?_, ?_⟩
    · rw [hwaits.params_eq, hs.peer]
    · rw [hwaits.params_eq, hs.mac1Key]
    · rw [hwaits.params_eq, hs.length_public]
    · rw [hwaits.next_eq]
      exact hs.next_lt
  | some message =>
    obtain ⟨hformats, hnext⟩ := step_formats hs call
    refine ⟨?_, ?_, ?_, ?_⟩
    · rw [hformats.params_eq, hs.peer]
    · rw [hformats.params_eq, hs.mac1Key]
    · rw [hformats.params_eq, hs.length_public]
    · rw [hnext]
      exact nextIndex_lt hs.next_lt

theorem run_waits {ops : List Op} {formatted : List (Option Bytes)}
    (hrun : Machine.run step s ops = .ok (formatted, s')) (hsilent : ∀ m ∈ formatted, m = none) :
    s'.1.params = s.1.params ∧ s'.1.cookies.index = s.1.cookies.index ∧
      s'.1.cookies.lastMac1 = s.1.cookies.lastMac1 ∧
      (Machine.Along step KeepsCookie s ops →
        s'.1.cookies.writeCookie = s.1.cookies.writeCookie) := by
  induction ops generalizing s formatted with
  | nil =>
    cases hrun
    exact ⟨rfl, rfl, rfl, fun _ => rfl⟩
  | cons op ops ih =>
    obtain ⟨r, s₁, formatted', hstep, hrest, rfl⟩ := Machine.run_cons_ok.mp hrun
    rw [hsilent r List.mem_cons_self] at hstep
    have hwaits := step_waits hstep
    obtain ⟨hparams, hindex, hlast, hcookie⟩ :=
      ih hrest fun m hm => hsilent m (List.mem_cons_of_mem _ hm)
    refine ⟨hparams.trans hwaits.params_eq, hindex.trans hwaits.index_eq,
      hlast.trans hwaits.lastMac1_eq, fun halong => ?_⟩
    rw [Machine.Along, hstep] at halong
    exact (hcookie halong.2).trans (hwaits.writeCookie_eq halong.1)

theorem run_configured {publicKey : Bytes} {ops : List Op} {formatted : List (Option Bytes)}
    (hrun : Machine.run step s ops = .ok (formatted, s')) (hs : s.1.Configured publicKey) :
    s'.1.Configured publicKey :=
  Machine.run_invariant (I := fun s : Handshake K × World K N BYTES => s.1.Configured publicKey)
    (fun _ _ _ _ _ hs call => step_configured hs call) hrun hs

/-! ### The reply -/

theorem receiveCookieReply_cookieReplyOf {key nonce mac1 mac1' cookie : Bytes} {idx : ℕ}
    (hlast : h.cookies.lastMac1 = some mac1') (hcookie : cookie.length = 16) :
    h.receiveCookieReply (cookieReplyOf K key nonce idx cookie mac1) =
      if idx ≠ h.cookies.index then .ok (.error .wrongIndex, h)
      else
        match K.xdecrypt (b2sHash K labelCookie h.params.peerStaticPublic) nonce mac1'
            (K.xencrypt key nonce mac1 cookie).1 (K.xencrypt key nonce mac1 cookie).2 with
        | none => .ok (.error .invalidAeadTag, h)
        | some cookie =>
          .ok (.ok (), { h with cookies := { h.cookies with writeCookie := some cookie } }) := by
  have hct : (K.xencrypt key nonce mac1 cookie).1.length = 16 := by rw [K.length_xencrypt, hcookie]
  have hlen : (cookieReplyOf K key nonce idx cookie mac1).encryptedCookie.length = 32 := by
    rw [cookieReplyOf, List.length_append, hct, K.length_xtag]
  have htake : (cookieReplyOf K key nonce idx cookie mac1).encryptedCookie.take 16 =
      (K.xencrypt key nonce mac1 cookie).1 := List.take_left' hct
  have hdrop : (cookieReplyOf K key nonce idx cookie mac1).encryptedCookie.drop 16 =
      (K.xencrypt key nonce mac1 cookie).2 := List.drop_left' hct
  rw [receiveCookieReply, hlast]
  simp only [hlen, Nat.reduceLT, if_false, Nat.reduceSub, htake, hdrop, hct, ne_eq, not_true_eq_false]
  rfl

variable {publicKey reply : Bytes} {l : RateLimiter} {src : Option IpAddr} {N' BYTES' : ℕ}
  {v : World K N' BYTES'}

theorem Formats.mac1Of_eq (hformats : Formats h message h') :
    h'.cookies.lastMac1 = some (mac1Of message) ∧ senderOf message = some h'.cookies.index := by
  obtain ⟨body, mac2, packet, rfl, hmac2, hlast, -, hparse, hsender⟩ := hformats.macs
  rw [RateLimiter.mac1Of_append (length_b2sKeyedMac16 K _ _) hmac2, senderOf_of_parse hparse]
  exact ⟨hlast, hsender⟩

theorem Formats.length_mac1Of (hformats : Formats h message h') : (mac1Of message).length = 16 := by
  obtain ⟨body, mac2, packet, -, -, -, -, hparse, hsender⟩ := hformats.macs
  exact RateLimiter.length_mac1Of hparse hsender

theorem Formats.receiveCookieReply_ok (hK : K.Lawful) {h₂ : Handshake K}
    (hformats : Formats h message h') (hserves : l.Serves K publicKey)
    (hpeer : h₂.params.peerStaticPublic = publicKey) (hindex : h₂.cookies.index = h'.cookies.index)
    (hlast : h₂.cookies.lastMac1 = h'.cookies.lastMac1)
    (hanswer : (l.verifyPacket src message dstLen v).1 = .error (.writeToNetwork reply)) :
    ∃ addr p, src = some addr ∧ parseIncomingPacket reply = .ok (.cookieReply p) ∧
      h₂.receiveCookieReply p = .ok (.ok (), { h₂ with
        cookies := { h₂.cookies with writeCookie := some (l.currentCookie addr v).1 } }) := by
  obtain ⟨packet, senderIdx, addr, nonce, hparse, hsender, hsrc, hreply⟩ :=
    RateLimiter.verifyPacket_answer hanswer
  obtain ⟨hmac1, hidx⟩ := hformats.mac1Of_eq
  rw [senderOf_of_parse hparse, hsender, Option.some.injEq] at hidx
  refine ⟨addr, _, hsrc, hreply, ?_⟩
  rw [receiveCookieReply_cookieReplyOf (hlast.trans hmac1) (l.length_currentCookie addr v), hpeer,
    hserves.cookieKey, hK.xdecrypt_xencrypt, if_neg (not_not.mpr (hidx.trans hindex.symm))]

theorem Formats.receiveCookieReply_error (hbinds : K.BindsData) {h₂ : Handshake K} {other : Bytes}
    (hformats : Formats h message h') (hserves : l.Serves K publicKey)
    (hpeer : h₂.params.peerStaticPublic = publicKey) (hindex : h₂.cookies.index = h'.cookies.index)
    (hlast : h₂.cookies.lastMac1 = h'.cookies.lastMac1)
    (hother : senderOf other ≠ senderOf message ∨ mac1Of other ≠ mac1Of message)
    (hanswer : (l.verifyPacket src other dstLen v).1 = .error (.writeToNetwork reply)) :
    ∃ p e, parseIncomingPacket reply = .ok (.cookieReply p) ∧
      h₂.receiveCookieReply p = .ok (.error e, h₂) := by
  obtain ⟨packet, senderIdx, addr, nonce, hparse, hsender, -, hreply⟩ :=
    RateLimiter.verifyPacket_answer hanswer
  obtain ⟨hmac1, hidx⟩ := hformats.mac1Of_eq
  have hlength := RateLimiter.length_mac1Of hparse hsender
  refine ⟨_, if senderIdx ≠ h₂.cookies.index then .wrongIndex else .invalidAeadTag, hreply, ?_⟩
  rw [receiveCookieReply_cookieReplyOf (hlast.trans hmac1) (l.length_currentCookie addr v), hpeer,
    hserves.cookieKey]
  split
  · rfl
  · rename_i hsame
    -- The index is that of the last message, so the first MAC is another.
    have hmac1' : mac1Of other ≠ mac1Of message := by
      rcases hother with hsenders | hmacs
      · rw [senderOf_of_parse hparse, hsender, hidx, ← hindex, not_not.mp hsame] at hsenders
        exact absurd rfl hsenders
      · exact hmacs
    rw [hbinds _ _ _ _ _ hlength hformats.length_mac1Of hmac1']

theorem Formats.verifyPacket_ok {addr : IpAddr} (hformats : Formats h message h')
    (hmac1 : h.params.sendingMac1Key = b2sHash K labelMac1 publicKey)
    (hserves : l.Serves K publicKey)
    (hcookie : h.cookies.writeCookie = some (l.currentCookie addr v).1) :
    ∃ packet, parseIncomingPacket message = .ok packet ∧
      (l.verifyPacket (some addr) message dstLen v).1 = .ok packet := by
  obtain ⟨body, mac2, packet, rfl, hmac2, -, hright, hparse, -⟩ := hformats.macs
  refine ⟨packet, hparse, RateLimiter.verifyPacket_accepts (length_b2sKeyedMac16 K _ _) hmac2 hparse ?_
    (hright _ hcookie).symm⟩
  rw [hserves.mac1Key, hmac1]

/-- The reply to the last message that the sender has formatted is accepted whatever happened meanwhile.
The next message then passes the responder, wherever the load stands, as long as it comes from the
same address in the same period. The reply to any other message is refused. -/
theorem cookie_exchange_completes (hK : K.Lawful) (hbinds : K.BindsData)
    {staticPrivate : K.Secret} {publicKey : Bytes} {peerIndex : ℕ} {w₀ : World K N BYTES}
    {before waiting : List Op} {op : Op} {formatted₀ formatted : List (Option Bytes)}
    {s₀ s₁ s₂ : Handshake K × World K N BYTES} {l₁ : RateLimiter} {message reply : Bytes}
    (hserves : l₁.Serves K publicKey)
    (hbefore : Machine.run step
      (Handshake.new staticPrivate (K.publicKey staticPrivate) publicKey peerIndex, w₀) before =
        .ok (formatted₀, s₀))
    (hformat : step s₀ op = .ok (some message, s₁))
    (hanswer : (l₁.verifyPacket src message dstLen v).1 = .error (.writeToNetwork reply))
    (hwaiting : Machine.run step s₁ waiting = .ok (formatted, s₂))
    (hsilent : ∀ m ∈ formatted, m = none) :
    (∃ addr p h₃, src = some addr ∧ parseIncomingPacket reply = .ok (.cookieReply p) ∧
      s₂.1.receiveCookieReply p = .ok (.ok (), h₃) ∧
      ∀ (w₃ : World K N BYTES) (quiet : List Op) (formatted₃ : List (Option Bytes))
        (s₃ : Handshake K × World K N BYTES) (op' : Op) (message' : Bytes)
        (s₄ : Handshake K × World K N BYTES) (l₂ : RateLimiter) (v' : World K N' BYTES')
        (dstLen' : ℕ),
        Machine.run step (h₃, w₃) quiet = .ok (formatted₃, s₃) → (∀ m ∈ formatted₃, m = none) →
        Machine.Along step KeepsCookie (h₃, w₃) quiet →
        step s₃ op' = .ok (some message', s₄) →
        Relation.ReflTransGen (RateLimiter.Step K N' BYTES') l₁ l₂ →
        l₂.cookiePeriod v' = l₁.cookiePeriod v →
        ∃ packet, parseIncomingPacket message' = .ok packet ∧
          (l₂.verifyPacket (some addr) message' dstLen' v').1 = .ok packet) ∧
    ∀ (l : RateLimiter) (src' : Option IpAddr) (other : Bytes) (dstLen' : ℕ)
      (v' : World K N' BYTES') (reply' : Bytes), l.Serves K publicKey →
      (l.verifyPacket src' other dstLen' v').1 = .error (.writeToNetwork reply') →
      senderOf other ≠ senderOf message ∨ mac1Of other ≠ mac1Of message →
      ∃ p e, parseIncomingPacket reply' = .ok (.cookieReply p) ∧
        s₂.1.receiveCookieReply p = .ok (.error e, s₂.1) := by
  have hs₀ := run_configured hbefore (new_configured staticPrivate publicKey peerIndex)
  have hs₁ := step_configured hs₀ hformat
  have hs₂ := run_configured hwaiting hs₁
  obtain ⟨hformats, -⟩ := step_formats hs₀ hformat
  obtain ⟨-, hindex, hlast, -⟩ := run_waits hwaiting hsilent
  constructor
  · obtain ⟨addr, p, hsrc, hreply, hreceive⟩ :=
      hformats.receiveCookieReply_ok hK hserves hs₂.peer hindex hlast hanswer
    refine ⟨addr, p, _, hsrc, hreply, hreceive, ?_⟩
    intro w₃ quiet formatted₃ s₃ op' message' s₄ l₂ v' dstLen' hquiet hsilent₃ halong hformat'
      hsteps hperiod
    have hsame := RateLimiter.same_of_steps hsteps
    have hserves₂ : l₂.Serves K publicKey :=
      ⟨hsame.mac1Key.trans hserves.mac1Key, hsame.cookieKey.trans hserves.cookieKey⟩
    have hs₃ : s₃.1.Configured publicKey :=
      run_configured hquiet ⟨hs₂.peer, hs₂.mac1Key, hs₂.length_public, hs₂.next_lt⟩
    obtain ⟨-, -, -, hcookie⟩ := run_waits hquiet hsilent₃
    obtain ⟨hformats', -⟩ := step_formats hs₃ hformat'
    apply hformats'.verifyPacket_ok hs₃.mac1Key hserves₂
    rw [hcookie halong, RateLimiter.currentCookie_congr hsame addr hperiod]
  · intro l src' other dstLen' v' reply' hserves' hanswer' hother
    exact hformats.receiveCookieReply_error hbinds hserves' hs₂.peer hindex hlast hother hanswer'

end Handshake

/-! ### A sample exchange

A cipher whose tag is the associated data shows that what is assumed of the primitives can be met. -/

namespace Sample

def tagOf (data : Bytes) : Bytes := (data ++ zeros 16).take 16

theorem length_tagOf (data : Bytes) : (tagOf data).length = 16 := by
  rw [tagOf, List.length_take, List.length_append, length_zeros]
  omega

theorem tagOf_eq {data : Bytes} (h : data.length = 16) : tagOf data = data := List.take_left' h

def cookieCrypto : Crypto := { Crypto.sample with
  xencrypt := fun _ _ a m => (m, tagOf a)
  xdecrypt := fun _ _ a c t => if tagOf a = t then some c else none
  length_xencrypt := fun _ _ _ _ => rfl
  length_xtag := fun _ _ a _ => length_tagOf a }

theorem cookieCrypto_lawful : cookieCrypto.Lawful where
  diffieHellman_comm := Crypto.sample_lawful.diffieHellman_comm
  decrypt_encrypt := Crypto.sample_lawful.decrypt_encrypt
  xdecrypt_xencrypt _ _ _ _ := if_pos rfl

theorem cookieCrypto_bindsData : cookieCrypto.BindsData := by
  intro k n a a' m ha ha' hne
  change (if tagOf a' = tagOf a then some m else none) = none
  rw [tagOf_eq ha, tagOf_eq ha', if_neg hne.symm]

def cookieWorld : World cookieCrypto 8 8192 :=
  .start (fun n => n * 20000000) (fun n => (n + 21 : ℕ)) (.new 8 8192 .alloc)

def cookieKey : Bytes := cookieCrypto.publicKey (11 : ℕ)

def cookieInitiator : Handshake cookieCrypto :=
  .new (5 : ℕ) (cookieCrypto.publicKey (5 : ℕ)) cookieKey 1

def loadedLimiter : RateLimiter := (RateLimiter.new cookieCrypto cookieKey 0 [1] [2] cookieWorld).1

def answersCookie (message : Bytes) (s : Handshake cookieCrypto × World cookieCrypto 8 8192) : Bool :=
  match (loadedLimiter.verifyPacket (some (.v4 7)) message maxPacketSize cookieWorld).1 with
  | .error (.writeToNetwork reply) =>
    match parseIncomingPacket reply with
    | .ok (.cookieReply p) =>
      okAnd (fun (_, h) => okAnd (fun (m, _) => m.isSome)
        (Handshake.step (h, s.2) (.formatHandshakeInitiation maxPacketSize ⟨0, 0⟩)))
        (s.1.receiveCookieReply p)
    | _ => false
  | _ => false

def cookieExchange : Bool :=
  okAnd (fun (m, s) => m.any fun message => answersCookie message s)
    (Handshake.step (cookieInitiator, cookieWorld) (.formatHandshakeInitiation maxPacketSize ⟨0, 0⟩))

end Sample

namespace Handshake

open Sample

theorem cookie_exchange_completes_sample :
    ∃ message s₁ reply p h₃ message' s₄ packet,
      step (cookieInitiator, cookieWorld) (.formatHandshakeInitiation maxPacketSize ⟨0, 0⟩) =
        .ok (some message, s₁) ∧
      (loadedLimiter.verifyPacket (some (.v4 7)) message maxPacketSize cookieWorld).1 =
        .error (.writeToNetwork reply) ∧
      parseIncomingPacket reply = .ok (.cookieReply p) ∧
      s₁.1.receiveCookieReply p = .ok (.ok (), h₃) ∧
      step (h₃, s₁.2) (.formatHandshakeInitiation maxPacketSize ⟨0, 0⟩) =
        .ok (some message', s₄) ∧
      (loadedLimiter.verifyPacket (some (.v4 7)) message' maxPacketSize cookieWorld).1 =
        .ok packet := by
  have hcheck : cookieExchange = true := by decide +kernel
  obtain ⟨⟨m, s₁⟩, hformat, hcheck⟩ := exists_of_okAnd hcheck
  cases m with
  | none => cases hcheck
  | some message =>
    change answersCookie message s₁ = true at hcheck
    rw [answersCookie] at hcheck
    split at hcheck
    · rename_i reply hanswer
      have hbefore : Machine.run step (cookieInitiator, cookieWorld) [] =
          .ok ([], (cookieInitiator, cookieWorld)) := rfl
      have hwaiting : Machine.run step s₁ [] = .ok ([], s₁) := rfl
      have hsilent : ∀ m ∈ ([] : List (Option Bytes)), m = none := List.forall_mem_nil _
      have hexchange := cookie_exchange_completes cookieCrypto_lawful cookieCrypto_bindsData
        ⟨rfl, rfl⟩ hbefore hformat hanswer hwaiting hsilent
      obtain ⟨⟨addr, p, h₃, haddr, hparse, hreceive, hnext⟩, -⟩ := hexchange
      cases haddr
      rw [hparse] at hcheck
      dsimp only at hcheck
      rw [hreceive] at hcheck
      have hagain : okAnd (fun r => r.1.isSome)
          (step (h₃, s₁.2) (.formatHandshakeInitiation maxPacketSize ⟨0, 0⟩)) = true := hcheck
      obtain ⟨⟨m', s₄⟩, hformat', hm'⟩ := exists_of_okAnd hagain
      obtain ⟨message', rfl⟩ := Option.isSome_iff_exists.mp hm'
      obtain ⟨packet, -, hverify⟩ := hnext s₁.2 [] [] _ _ message' s₄ loadedLimiter cookieWorld
        maxPacketSize rfl hsilent trivial hformat' .refl rfl
      exact ⟨message, s₁, reply, p, h₃, message', s₄, packet, hformat, hanswer, hparse, hreceive,
        hformat', hverify⟩
    · cases hcheck

end Handshake

end Tendrilix.Noise
