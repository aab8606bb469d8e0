import Tendrilix.Noise.RateLimiter
import Tendrilix.Noise.Run

/-!
# What a flood of handshake messages costs

A handshake message that passes the rate limiter costs several key agreements. Between two resets of
the counter, no more than the limit pass without the MAC that proves the address of the sender, and
resets are a period apart. So the messages that pass without proof grow with time and not with what
arrives, until the counter itself runs over.
-/

namespace Tendrilix.Noise

namespace RateLimiter

open Bytes

variable {K : Crypto} {N BYTES : ℕ}

/-- Calls on the rate limiter, and what others do to the clock between them. -/
inductive Op
  | verify (srcAddr : Option IpAddr) (datagram : Bytes) (dstLen : ℕ)
  | reset
  | readClock

def step (s : RateLimiter × World K N BYTES) :
    Op → Call (Option (Except TunnResult Packet) × RateLimiter × World K N BYTES)
  | .verify srcAddr datagram dstLen =>
    let (verified, l, w) := s.1.verifyPacket srcAddr datagram dstLen s.2
    .ok (some verified, l, w)
  | .reset =>
    let (l, w) := s.1.resetCount s.2
    .ok (none, l, w)
  | .readClock => .ok (none, s.1, s.2.now.2)

def provesAddress (l : RateLimiter) (srcAddr : Option IpAddr) (datagram : Bytes)
    (w : World K N BYTES) : Bool :=
  match srcAddr with
  | none => false
  | some addr =>
    b2sKeyedMac16Two K (l.currentCookie addr w).1 (datagram.take (datagram.length - 32))
        (slice datagram (datagram.length - 32) (datagram.length - 16)) =
      slice datagram (datagram.length - 16) datagram.length

def unproven (s : RateLimiter × World K N BYTES) : Op → ℕ
  | .verify srcAddr datagram dstLen =>
    match (s.1.verifyPacket srcAddr datagram dstLen s.2).1 with
    | .ok packet =>
      ((handshakeSender packet).isSome && !s.1.provesAddress srcAddr datagram s.2).toNat
    | .error _ => 0
  | _ => 0

variable {l l' : RateLimiter} {w w' : World K N BYTES}

theorem formatCookieReply_limits {idx dstLen : ℕ} {cookie mac1 : Bytes} {r : Outcome Bytes}
    (h : l.formatCookieReply K idx cookie mac1 dstLen = (r, l')) :
    l'.limit = l.limit ∧ l'.lastReset = l.lastReset ∧ l'.count = l.count := by
  rw [formatCookieReply] at h
  split at h
  · cases h
    exact ⟨rfl, rfl, rfl⟩
  · cases h
    exact ⟨rfl, rfl, rfl⟩

inductive Counted (s : RateLimiter × World K N BYTES) (op : Op) (l' : RateLimiter) : Prop
  | ignored (count : l'.count = s.1.count) (proven : unproven s op = 0)
  | below (load : s.1.count < s.1.limit) (count : l'.count = (s.1.count + 1) % 2 ^ 64)
  | above (count : l'.count = (s.1.count + 1) % 2 ^ 64) (proven : unproven s op = 0)

theorem verifyPacket_counted (l : RateLimiter) (srcAddr : Option IpAddr) (datagram : Bytes)
    (dstLen : ℕ) (w : World K N BYTES) :
    (l.verifyPacket srcAddr datagram dstLen w).2.1.limit = l.limit ∧
      (l.verifyPacket srcAddr datagram dstLen w).2.1.lastReset = l.lastReset ∧
      Counted (l, w) (.verify srcAddr datagram dstLen)
        (l.verifyPacket srcAddr datagram dstLen w).2.1 := by
  cases hparse : parseIncomingPacket datagram with
  | error e =>
    have hverify : l.verifyPacket srcAddr datagram dstLen w = (.error (.err e), l, w) := by
      rw [verifyPacket, hparse]
    rw [hverify]
    exact ⟨rfl, rfl, .ignored rfl (by rw [unproven, hverify])⟩
  | ok packet =>
    cases hsender : handshakeSender packet with
    | none =>
      have hverify : l.verifyPacket srcAddr datagram dstLen w = (.ok packet, l, w) :=
        verifyPacket_unlimited hparse hsender
      rw [hverify]
      refine ⟨rfl, rfl, .ignored rfl ?_⟩
      rw [unproven, hverify]
      dsimp only
      rw [hsender]
      rfl
    | some senderIdx =>
      have hunproven : unproven (l, w) (.verify srcAddr datagram dstLen) =
          match (l.verifyPacket srcAddr datagram dstLen w).1 with
          | .ok packet =>
            ((handshakeSender packet).isSome && !l.provesAddress srcAddr datagram w).toNat
          | .error _ => 0 := rfl
      rw [verifyPacket, hparse]
      dsimp only
      rw [hsender]
      dsimp only
      rw [verifyPacket, hparse] at hunproven
      dsimp only at hunproven
      rw [hsender] at hunproven
      dsimp only at hunproven
      split
      · rename_i hmac
        rw [if_pos hmac] at hunproven
        exact ⟨rfl, rfl, .ignored rfl hunproven⟩
      rename_i hmac
      rw [if_neg hmac] at hunproven
      cases hload : l.isUnderLoad.1 with
      | false =>
        exact ⟨rfl, rfl, .below (Nat.not_le.mp (of_decide_eq_false hload)) rfl⟩
      | true =>
        rw [hload] at hunproven
        simp only [Bool.not_true, Bool.false_eq_true, if_false] at hunproven ⊢
        cases srcAddr with
        | none => exact ⟨rfl, rfl, .above rfl hunproven⟩
        | some addr =>
          dsimp only at hunproven ⊢
          split
          · rename_i hproven
            have hproves : l.provesAddress (some addr) datagram w = true := decide_eq_true hproven
            rw [if_pos hproven] at hunproven
            refine ⟨rfl, rfl, .above rfl ?_⟩
            rw [hunproven]
            dsimp only
            rw [hproves, Bool.not_true, Bool.and_false]
            rfl
          · rename_i hproven
            rw [if_neg hproven] at hunproven
            split
            · rename_i e l' hreply
              rw [hreply] at hunproven
              obtain ⟨hlimit, hreset, hcount⟩ := formatCookieReply_limits hreply
              exact ⟨hlimit, hreset, .above hcount hunproven⟩
            · rename_i cookiePacket l' hreply
              rw [hreply] at hunproven
              obtain ⟨hlimit, hreset, hcount⟩ := formatCookieReply_limits hreply
              exact ⟨hlimit, hreset, .above hcount hunproven⟩

/-- The invariant of runs: `resets` of the counter since `start`, a period apart, and `wraps` of it,
each after `2 ^ 64` messages. -/
structure Metered (limit count₀ start : ℕ) (clock : ℕ → ℕ) (steps spent : ℕ)
    (s : RateLimiter × World K N BYTES) : Prop where
  limit_eq : s.1.limit = limit
  clock_eq : s.2.clock = clock
  now_le : start ≤ clock s.2.reads
  spent_le : ∃ wraps resets, 2 ^ 64 * wraps + s.1.count ≤ count₀ + steps ∧
    (resets ≠ 0 → start + fromSecs resetPeriod * (resets - 1) ≤ s.1.lastReset ∧
      s.1.lastReset ≤ clock s.2.reads) ∧
    spent ≤ limit * (wraps + resets) + min s.1.count limit

variable {limit count₀ start steps spent : ℕ} {clock : ℕ → ℕ}

theorem unproven_le (s : RateLimiter × World K N BYTES) (op : Op) : unproven s op ≤ 1 := by
  rw [unproven.eq_def]
  split
  · split
    · exact Bool.toNat_le _
    · exact Nat.zero_le _
  · exact Nat.zero_le _

theorem counted_le {count count' wraps resets cost : ℕ}
    (hcount : count' = (count + 1) % 2 ^ 64) (hcost : cost ≤ 1) (hproven : limit ≤ count → cost = 0)
    (hcounted : 2 ^ 64 * wraps + count ≤ count₀ + steps)
    (hspent : spent ≤ limit * (wraps + resets) + min count limit) :
    ∃ wraps', 2 ^ 64 * wraps' + count' ≤ count₀ + (steps + 1) ∧
      spent + cost ≤ limit * (wraps' + resets) + min count' limit := by
  have hsplit := Nat.div_add_mod (count + 1) (2 ^ 64)
  refine ⟨wraps + (count + 1) / 2 ^ 64, ?_, ?_⟩
  · rw [hcount, Nat.mul_add]
    omega
  · have hone : min count limit + cost ≤ min (count + 1) limit := by
      by_cases hload : limit ≤ count
      · rw [hproven hload]
        omega
      · omega
    cases hwraps : (count + 1) / 2 ^ 64 with
    | zero =>
      rw [hwraps, Nat.mul_zero, Nat.zero_add, ← hcount] at hsplit
      rw [hsplit, Nat.add_zero]
      omega
    | succ n =>
      -- The limit that a full turn of the counter allows pays for what has been counted.
      have hturn : limit * (wraps + resets) + limit ≤ limit * (wraps + (n + 1) + resets) := by
        rw [← Nat.mul_succ]
        exact Nat.mul_le_mul_left limit (by omega)
      omega

theorem step_metered {s s' : RateLimiter × World K N BYTES} {op : Op}
    {reply : Option (Except TunnResult Packet)} (hclock : Monotone clock)
    (h : Metered limit count₀ start clock steps spent s) (hstep : step s op = .ok (reply, s')) :
    Metered limit count₀ start clock (steps + 1) (spent + unproven s op) s' := by
  obtain ⟨hlimit, rfl, hnow, wraps, resets, hcount, hresets, hspent⟩ := h
  have hlater : s.2.clock s.2.reads ≤ s.2.clock (s.2.reads + 1) := hclock (Nat.le_succ _)
  cases op with
  | readClock =>
    cases hstep
    refine ⟨hlimit, rfl, hnow.trans hlater, wraps, resets, hcount.trans (Nat.le_succ _),
      fun hpos => ?_, hspent⟩
    exact ⟨(hresets hpos).1, (hresets hpos).2.trans hlater⟩
  | reset =>
    cases hstep
    change Metered limit count₀ start s.2.clock (steps + 1) spent (s.1.resetCount s.2)
    rw [resetCount]
    dsimp only
    split
    · rename_i hperiod
      change fromSecs resetPeriod ≤ s.2.clock s.2.reads - s.1.lastReset at hperiod
      refine ⟨hlimit, rfl, hnow.trans hlater, wraps, resets + 1,
        (Nat.le_add_right _ _).trans (hcount.trans (Nat.le_succ _)), fun _ => ⟨?_, ?_⟩, ?_⟩
      · change start + fromSecs resetPeriod * resets ≤ s.2.clock s.2.reads
        cases resets with
        | zero => exact hnow
        | succ n =>
          obtain ⟨hspaced, -⟩ := hresets (Nat.succ_ne_zero n)
          rw [Nat.add_sub_cancel] at hspaced
          rw [Nat.mul_succ]
          have hpos : 0 < fromSecs resetPeriod := by decide
          omega
      · exact hlater
      · calc spent ≤ limit * (wraps + resets) + min s.1.count limit := hspent
          _ ≤ limit * (wraps + resets) + limit := Nat.add_le_add_left (Nat.min_le_right _ _) _
          _ = limit * (wraps + (resets + 1)) := (Nat.mul_succ _ _).symm
          _ ≤ _ := Nat.le_add_right _ _
    · refine ⟨hlimit, rfl, hnow.trans hlater, wraps, resets, hcount.trans (Nat.le_succ _),
        fun hpos => ?_, hspent⟩
      exact ⟨(hresets hpos).1, (hresets hpos).2.trans hlater⟩
  | verify srcAddr datagram dstLen =>
    cases hstep
    obtain ⟨hlimit', hreset', hcounted⟩ := s.1.verifyPacket_counted srcAddr datagram dstLen s.2
    have hone := unproven_le s (.verify srcAddr datagram dstLen)
    have hworld : (s.1.verifyPacket srcAddr datagram dstLen s.2).2.2.clock = s.2.clock ∧
        s.2.clock s.2.reads ≤ s.2.clock (s.1.verifyPacket srcAddr datagram dstLen s.2).2.2.reads := by
      rcases s.1.verifyPacket_world srcAddr datagram dstLen s.2 with hworld | hworld
      · rw [hworld]
        exact ⟨rfl, le_rfl⟩
      · rw [hworld]
        exact ⟨rfl, hlater⟩
    refine ⟨hlimit'.trans hlimit, hworld.1, hnow.trans hworld.2, ?_⟩
    have hresets' : resets ≠ 0 →
        start + fromSecs resetPeriod * (resets - 1) ≤
            (s.1.verifyPacket srcAddr datagram dstLen s.2).2.1.lastReset ∧
          (s.1.verifyPacket srcAddr datagram dstLen s.2).2.1.lastReset ≤
            s.2.clock (s.1.verifyPacket srcAddr datagram dstLen s.2).2.2.reads := by
      intro hpos
      rw [hreset']
      exact ⟨(hresets hpos).1, (hresets hpos).2.trans hworld.2⟩
    have hpaid : ∃ wraps', 2 ^ 64 * wraps' +
          (s.1.verifyPacket srcAddr datagram dstLen s.2).2.1.count ≤ count₀ + (steps + 1) ∧
        spent + unproven s (.verify srcAddr datagram dstLen) ≤ limit * (wraps' + resets) +
          min (s.1.verifyPacket srcAddr datagram dstLen s.2).2.1.count limit := by
      cases hcounted with
      | ignored hsame hproven =>
        refine ⟨wraps, ?_, ?_⟩
        · rw [hsame]
          exact hcount.trans (Nat.le_succ _)
        · rw [hproven, hsame]
          exact hspent
      | below hload hnext =>
        refine counted_le hnext hone (fun hfull => absurd hload ?_) hcount hspent
        rw [hlimit]
        exact Nat.not_lt.mpr hfull
      | above hnext hproven => exact counted_le hnext hone (fun _ => hproven) hcount hspent
    obtain ⟨wraps', hcount', hspent'⟩ := hpaid
    exact ⟨wraps', resets, hcount', hresets', hspent'⟩

/-- The counter allows `limit` messages once for each period that begins in the run, and once for
each turn that so many messages can make it take, whatever datagrams arrive in whatever order. -/
theorem run_limits_unproven {s s' : RateLimiter × World K N BYTES} {ops : List Op}
    {replies : List (Option (Except TunnResult Packet))} (hclock : Monotone s.2.clock)
    (hrun : Machine.run step s ops = .ok (replies, s')) :
    Machine.cost step unproven s ops ≤
      s.1.limit * ((s.2.clock s'.2.reads - s.2.clock s.2.reads) / fromSecs resetPeriod + 2 +
        (s.1.count + ops.length) / 2 ^ 64) := by
  have hstart : Metered s.1.limit s.1.count (s.2.clock s.2.reads) s.2.clock 0 0 s :=
    ⟨rfl, rfl, le_rfl, 0, 0, by omega, fun hpos => absurd rfl hpos, Nat.zero_le _⟩
  have hend := Machine.run_cost_invariant
    (fun _ _ _ _ _ _ h hstep => step_metered hclock h hstep) hrun hstart
  rw [Nat.zero_add, Nat.zero_add] at hend
  obtain ⟨-, -, hnow, wraps, resets, hcount, hresets, hspent⟩ := hend
  have hwraps : wraps ≤ (s.1.count + ops.length) / 2 ^ 64 := by
    rw [Nat.le_div_iff_mul_le (by decide)]
    omega
  have hresets : resets ≤ (s.2.clock s'.2.reads - s.2.clock s.2.reads) / fromSecs resetPeriod + 1 := by
    cases resets with
    | zero => exact Nat.zero_le _
    | succ n =>
      obtain ⟨hspaced, hlast⟩ := hresets (Nat.succ_ne_zero n)
      rw [Nat.add_sub_cancel] at hspaced
      apply Nat.succ_le_succ
      rw [Nat.le_div_iff_mul_le (by decide), Nat.mul_comm]
      omega
  calc Machine.cost step unproven s ops
      ≤ s.1.limit * (wraps + resets) + min s'.1.count s.1.limit := hspent
    _ ≤ s.1.limit * (wraps + resets) + s.1.limit := Nat.add_le_add_left (Nat.min_le_right _ _) _
    _ = s.1.limit * (wraps + resets + 1) := (Nat.mul_succ _ _).symm
    _ ≤ _ := Nat.mul_le_mul_left _ (by omega)

end RateLimiter

namespace Sample

def limiter : RateLimiter × World Crypto.sample 8 8192 :=
  RateLimiter.new Crypto.sample (Crypto.sample.publicKey responderSecret) 2 [1] [2]
    { world with clock := fun n => n * 250000000 }

def flood : List RateLimiter.Op :=
  List.replicate 5 (.verify (some (.v4 1)) initiation maxPacketSize) ++ [.reset] ++
    List.replicate 5 (.verify (some (.v4 1)) initiation maxPacketSize)

end Sample

theorem RateLimiter.run_limits_unproven_flood :
    ∃ replies s', Machine.run step Sample.limiter Sample.flood = .ok (replies, s') ∧
      Machine.cost step unproven Sample.limiter Sample.flood = 4 ∧
      4 ≤ 2 * ((Sample.limiter.2.clock s'.2.reads - Sample.limiter.2.clock Sample.limiter.2.reads) /
        fromSecs resetPeriod + 2 + (Sample.limiter.1.count + Sample.flood.length) / 2 ^ 64) := by
  have hcheck : okAnd (fun _ => true) (Machine.run step Sample.limiter Sample.flood) = true := by
    decide +kernel
  obtain ⟨⟨replies, s'⟩, hrun, -⟩ := exists_of_okAnd hcheck
  have hcost : Machine.cost step unproven Sample.limiter Sample.flood = 4 := by decide +kernel
  have hclock : Monotone Sample.limiter.2.clock := fun a b hab => Nat.mul_le_mul_right _ hab
  refine ⟨replies, s', hrun, hcost, ?_⟩
  rw [← hcost]
  exact run_limits_unproven hclock hrun

end Tendrilix.Noise
