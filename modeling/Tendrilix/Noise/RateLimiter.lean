import Tendrilix.Noise.Tunn

/-!
# The rate limiter

Verifies the first MAC of every handshake message. Under load, it also asks for the second one,
which proves that the sender owns its address.
-/

namespace Tendrilix.Noise

open Bytes

variable {K : Crypto} {N BYTES : ℕ}

def cookieRefresh : ℕ := 120

def resetPeriod : ℕ := 1

structure RateLimiter where
  nonceKey : Bytes
  secretKey : Bytes
  startTime : ℕ
  nonceCtr : ℕ
  mac1Key : Bytes
  cookieKey : Bytes
  limit : ℕ
  count : ℕ
  lastReset : ℕ

namespace RateLimiter

/-- `secretKey` and `nonceKey` are the bytes drawn from the random generator. -/
def new (K : Crypto) (publicKey : Bytes) (limit : ℕ) (secretKey nonceKey : Bytes)
    (w : World K N BYTES) : RateLimiter × World K N BYTES :=
  let (startTime, w) := w.now
  let (lastReset, w) := w.now
  ({ nonceKey := nonceKey
     secretKey := secretKey
     startTime := startTime
     nonceCtr := 0
     mac1Key := b2sHash K labelMac1 publicKey
     cookieKey := b2sHash K labelCookie publicKey
     limit := limit
     count := 0
     lastReset := lastReset }, w)

def resetCount (l : RateLimiter) (w : World K N BYTES) : RateLimiter × World K N BYTES :=
  let (currentTime, w) := w.now
  if fromSecs resetPeriod ≤ currentTime - l.lastReset then
    ({ l with count := 0, lastReset := currentTime }, w)
  else (l, w)

/-- The address in the 16 bytes that the cookie is derived from. -/
def addrBytes : IpAddr → Bytes
  | .v4 a => toBe 4 a.toNat ++ zeros 12
  | .v6 a => toBe 16 a.toNat

def currentCookie (l : RateLimiter) (addr : IpAddr) (w : World K N BYTES) :
    Bytes × World K N BYTES :=
  let (now, w) := w.now
  let curCounter := (now - l.startTime) / fromSecs 1 / cookieRefresh
  (b2sKeyedMac16Two K l.secretKey (toLe 8 curCounter) (addrBytes addr), w)

def nonce (K : Crypto) (l : RateLimiter) : Bytes × RateLimiter :=
  (b2sMac24 K l.nonceKey (toLe 8 l.nonceCtr), { l with nonceCtr := (l.nonceCtr + 1) % 2 ^ 64 })

def isUnderLoad (l : RateLimiter) : Bool × RateLimiter :=
  (l.limit ≤ l.count, { l with count := (l.count + 1) % 2 ^ 64 })

def formatCookieReply (K : Crypto) (l : RateLimiter) (idx : ℕ) (cookie mac1 : Bytes) (dstLen : ℕ) :
    Outcome Bytes × RateLimiter :=
  if dstLen < cookieReplySz then (.error .destinationBufferTooSmall, l)
  else
    let (nonce, l) := l.nonce K
    let (ciphertext, tag) := K.xencrypt l.cookieKey nonce mac1 cookie
    (.ok (toLe 4 MessageType.cookieReply ++ toLe 4 idx ++ nonce ++ ciphertext ++ tag), l)

def handshakeSender : Packet → Option ℕ
  | .handshakeInit p => some p.senderIdx
  | .handshakeResponse p => some p.senderIdx
  | _ => none

def verifyPacket (l : RateLimiter) (srcAddr : Option IpAddr) (src : Bytes) (dstLen : ℕ)
    (w : World K N BYTES) : Except TunnResult Packet × RateLimiter × World K N BYTES :=
  match parseIncomingPacket src with
  | .error e => (.error (.err e), l, w)
  | .ok packet =>
    match handshakeSender packet with
    | none => (.ok packet, l, w)
    | some senderIdx =>
      let msg := src.take (src.length - 32)
      let mac1 := slice src (src.length - 32) (src.length - 16)
      let mac2 := slice src (src.length - 16) src.length
      if b2sKeyedMac16 K l.mac1Key msg ≠ mac1 then (.error (.err .invalidMac), l, w)
      else
        let (underLoad, l) := l.isUnderLoad
        if !underLoad then (.ok packet, l, w)
        else
          match srcAddr with
          | none => (.error (.err .underLoad), l, w)
          | some addr =>
            let (cookie, w) := l.currentCookie addr w
            if b2sKeyedMac16Two K cookie msg mac1 = mac2 then (.ok packet, l, w)
            else
              match l.formatCookieReply K senderIdx cookie mac1 dstLen with
              | (.error e, l) => (.error (.err e), l, w)
              | (.ok cookiePacket, l) => (.error (.writeToNetwork cookiePacket), l, w)

inductive Verdict (l : RateLimiter) (srcAddr : Option IpAddr) (src : Bytes) (dstLen : ℕ)
    (w : World K N BYTES) :
    Except TunnResult Packet × RateLimiter × World K N BYTES → Prop
  | malformed {e : WireGuardError} (parse : parseIncomingPacket src = .error e) :
      Verdict l srcAddr src dstLen w (.error (.err e), l, w)
  | unlimited {packet : Packet} (parse : parseIncomingPacket src = .ok packet)
      (sender : handshakeSender packet = none) : Verdict l srcAddr src dstLen w (.ok packet, l, w)
  | invalidMac : Verdict l srcAddr src dstLen w (.error (.err .invalidMac), l, w)
  | idle {packet : Packet} (parse : parseIncomingPacket src = .ok packet)
      (load : l.count < l.limit) :
      Verdict l srcAddr src dstLen w (.ok packet, l.isUnderLoad.2, w)
  | unaddressed (load : l.limit ≤ l.count) (addr : srcAddr = none) :
      Verdict l srcAddr src dstLen w (.error (.err .underLoad), l.isUnderLoad.2, w)
  | authenticated {packet : Packet} (parse : parseIncomingPacket src = .ok packet) :
      Verdict l srcAddr src dstLen w (.ok packet, l.isUnderLoad.2, w.now.2)
  | refused {senderIdx : ℕ} {addr : IpAddr} {e : WireGuardError} {l' : RateLimiter}
      (reply : l.isUnderLoad.2.formatCookieReply K senderIdx (l.currentCookie addr w).1
        (slice src (src.length - 32) (src.length - 16)) dstLen = (.error e, l')) :
      Verdict l srcAddr src dstLen w (.error (.err e), l', w.now.2)
  | answered {packet : Packet} {senderIdx : ℕ} {addr : IpAddr} {cookiePacket : Bytes}
      {l' : RateLimiter} (parse : parseIncomingPacket src = .ok packet)
      (sender : handshakeSender packet = some senderIdx) (load : l.limit ≤ l.count)
      (source : srcAddr = some addr)
      (reply : l.isUnderLoad.2.formatCookieReply K senderIdx (l.currentCookie addr w).1
        (slice src (src.length - 32) (src.length - 16)) dstLen = (.ok cookiePacket, l')) :
      Verdict l srcAddr src dstLen w (.error (.writeToNetwork cookiePacket), l', w.now.2)

theorem verifyPacket_verdict (l : RateLimiter) (srcAddr : Option IpAddr) (src : Bytes)
    (dstLen : ℕ) (w : World K N BYTES) :
    Verdict l srcAddr src dstLen w (l.verifyPacket srcAddr src dstLen w) := by
  rw [verifyPacket]
  split
  · rename_i e hparse
    exact .malformed hparse
  rename_i packet hparse
  split
  · rename_i hsender
    exact .unlimited hparse hsender
  rename_i senderIdx hsender
  dsimp only
  split
  · exact .invalidMac
  cases hload : l.isUnderLoad.1 with
  | false => exact .idle hparse (Nat.not_le.mp (of_decide_eq_false hload))
  | true =>
    simp only [Bool.not_true, Bool.false_eq_true, if_false]
    split
    · exact .unaddressed (of_decide_eq_true hload) rfl
    rename_i addr
    split
    · exact .authenticated hparse
    split
    · rename_i e l' hreply
      exact .refused hreply
    · rename_i cookiePacket l' hreply
      exact .answered hparse hsender (of_decide_eq_true hload) rfl hreply

section

variable {l : RateLimiter} {srcAddr : Option IpAddr} {src : Bytes} {dstLen : ℕ}
  {w : World K N BYTES} {packet : Packet}

theorem verifyPacket_unlimited (hparse : parseIncomingPacket src = .ok packet)
    (hsender : handshakeSender packet = none) :
    l.verifyPacket srcAddr src dstLen w = (.ok packet, l, w) := by
  rw [verifyPacket, hparse]
  dsimp only
  rw [hsender]

theorem verifyPacket_ok (h : (l.verifyPacket srcAddr src dstLen w).1 = .ok packet) :
    parseIncomingPacket src = .ok packet := by
  have hverdict := l.verifyPacket_verdict srcAddr src dstLen w
  generalize l.verifyPacket srcAddr src dstLen w = r at h hverdict
  cases hverdict with
  | unlimited parse | idle parse | authenticated parse =>
    cases h
    exact parse
  | malformed | invalidMac | unaddressed | refused | answered => cases h

/-- The clock is read at most once. -/
theorem verifyPacket_world (l : RateLimiter) (srcAddr : Option IpAddr) (src : Bytes) (dstLen : ℕ)
    (w : World K N BYTES) :
    (l.verifyPacket srcAddr src dstLen w).2.2 = w ∨
      (l.verifyPacket srcAddr src dstLen w).2.2 = w.now.2 := by
  have hverdict := l.verifyPacket_verdict srcAddr src dstLen w
  generalize l.verifyPacket srcAddr src dstLen w = r at hverdict
  cases hverdict with
  | malformed | unlimited | invalidMac | idle | unaddressed => exact .inl rfl
  | authenticated | refused | answered => exact .inr rfl

theorem verifyPacket_pool (l : RateLimiter) (srcAddr : Option IpAddr) (src : Bytes) (dstLen : ℕ)
    (w : World K N BYTES) : (l.verifyPacket srcAddr src dstLen w).2.2.pool = w.pool := by
  rcases l.verifyPacket_world srcAddr src dstLen w with hworld | hworld
  · rw [hworld]
  · rw [hworld]
    rfl

theorem resetCount_world (l : RateLimiter) (w : World K N BYTES) :
    (l.resetCount w).2 = w.now.2 := by
  rw [resetCount]
  dsimp only
  split
  · rfl
  · rfl

end

end RateLimiter

end Tendrilix.Noise
