import Tendrilix.Noise.Mirror

/-!
# Stamps follow the clock

Whitening loses the low bits of the nanoseconds, but a later stamp is never before an earlier one.
An initiation that is sent again after its timeout carries a newer stamp than the one before.
-/

namespace Tendrilix.Noise

open Bytes

variable {K : Crypto} {N BYTES : ℕ}

namespace TimeStamper

variable {stamper : TimeStamper} {now : ℕ} {timestamp : Bytes}

def tai64N (stamper : TimeStamper) (elapsed : ℕ) : Tai64N where
  secs := tai64Base + stamper.unixTimeSecsAtStart + elapsed / nanosPerSec
  nano := elapsed % nanosPerSec / whitener * whitener

theorem whitener_pos : 0 < whitener := by decide

theorem nano_tai64N_lt (stamper : TimeStamper) (elapsed : ℕ) :
    (stamper.tai64N elapsed).nano < 256 ^ 4 := by
  have hmod : elapsed % nanosPerSec < nanosPerSec := Nat.mod_lt _ (by decide)
  have hmask : (stamper.tai64N elapsed).nano ≤ elapsed % nanosPerSec := Nat.div_mul_le_self _ _
  have hsecond : nanosPerSec ≤ 256 ^ 4 := by decide
  omega

theorem parse_toBe {seconds nanoseconds : ℕ} (hseconds : seconds < 256 ^ 8)
    (hnanoseconds : nanoseconds < 256 ^ 4) :
    Tai64N.parse (toBe 8 seconds ++ toBe 4 nanoseconds) = ⟨seconds, nanoseconds⟩ := by
  have hhigh := length_toBe 8 seconds
  have hlow := length_toBe 4 nanoseconds
  rw [Tai64N.parse, slice_append_left hhigh.ge, slice_self hhigh.symm, slice_append_right hhigh.le,
    hhigh, slice_self hlow.symm, ofBe_toBe hseconds, ofBe_toBe hnanoseconds]

theorem stampAt_eq {elapsed : ℕ}
    (hfits : tai64Base + stamper.unixTimeSecsAtStart + elapsed / nanosPerSec < 2 ^ 64) :
    stamper.stampAt (stamper.instantAtStart + elapsed) =
      .ok (toBe 8 (stamper.tai64N elapsed).secs ++ toBe 4 (stamper.tai64N elapsed).nano) := by
  have hstart : tai64Base + stamper.unixTimeSecsAtStart < 2 ^ 64 :=
    (Nat.le_add_right _ _).trans_lt hfits
  rw [stampAt, Nat.add_sub_cancel_left]
  dsimp only
  rw [addU64_eq hstart, ok_bind, addU64_eq hfits, ok_bind]
  rfl

theorem parse_stampAt (h : stamper.stampAt now = .ok timestamp) :
    Tai64N.parse timestamp = stamper.tai64N (now - stamper.instantAtStart) := by
  obtain ⟨start, hstart, h⟩ := bind_ok_iff.mp h
  obtain ⟨seconds, hseconds, h⟩ := bind_ok_iff.mp h
  obtain ⟨-, rfl⟩ := addU64_ok hstart
  obtain ⟨hfits, rfl⟩ := addU64_ok hseconds
  cases h
  exact parse_toBe hfits (stamper.nano_tai64N_lt _)

theorem tai64N_mono {t₁ t₂ : ℕ} (h : t₁ ≤ t₂) :
    (stamper.tai64N t₁).after (stamper.tai64N t₂) = false := by
  rw [← Bool.not_eq_true, Tai64N.after_iff]
  have hseconds : t₁ / nanosPerSec ≤ t₂ / nanosPerSec := Nat.div_le_div_right h
  rintro (hlater | ⟨hsame, hlater⟩)
  · exact absurd (Nat.lt_of_add_lt_add_left hlater) (Nat.not_lt.mpr hseconds)
  · have hsecond := Nat.add_left_cancel hsame
    have hrest : t₁ % nanosPerSec ≤ t₂ % nanosPerSec := by
      have h₁ := Nat.div_add_mod t₁ nanosPerSec
      have h₂ := Nat.div_add_mod t₂ nanosPerSec
      rw [← hsecond] at h₂
      omega
    have hmasked := Nat.mul_le_mul_right whitener (Nat.div_le_div_right (c := whitener) hrest)
    exact absurd hlater (Nat.not_lt.mpr hmasked)

theorem tai64N_strict {t₁ t₂ : ℕ} (h : t₁ + whitener ≤ t₂) :
    (stamper.tai64N t₂).after (stamper.tai64N t₁) = true := by
  rw [Tai64N.after_iff]
  have hle : t₁ / nanosPerSec ≤ t₂ / nanosPerSec :=
    Nat.div_le_div_right ((Nat.le_add_right _ _).trans h)
  rcases hle.lt_or_eq with hsecond | hsecond
  · exact .inl (Nat.add_lt_add_left hsecond _)
  · refine .inr ⟨congrArg (tai64Base + stamper.unixTimeSecsAtStart + ·) hsecond.symm, ?_⟩
    have hrest : t₁ % nanosPerSec + whitener ≤ t₂ % nanosPerSec := by
      have h₁ := Nat.div_add_mod t₁ nanosPerSec
      have h₂ := Nat.div_add_mod t₂ nanosPerSec
      rw [← hsecond] at h₂
      omega
    have hstep := Nat.div_le_div_right (c := whitener) hrest
    rw [Nat.add_div_right _ whitener_pos] at hstep
    exact Nat.mul_lt_mul_of_pos_right hstep whitener_pos

end TimeStamper

open NoiseParams

theorem Handshake.formatHandshakeInitiation_reads {h h' : Handshake K} {w w' : World K N BYTES}
    {dstLen : ℕ} {a b : K.Secret} {stamper : TimeStamper} {packet : Bytes}
    (hparams : h.params = .ofPeer a b) (hidx : h.nextLocalIndex < 2 ^ 32)
    (call : h.formatHandshakeInitiation dstLen stamper w = .ok (.ok packet, h', w')) :
    ∃ timestamp sent, stamper.stampAt (w.clock w.reads) = .ok timestamp ∧
      h'.state = .initSent sent ∧ sent.localIndex < 2 ^ 32 ∧
      sent.timeSent = w.clock (w.reads + 1) ∧ parseIncomingPacket packet = .ok (.handshakeInit
        ((ofPeer a b).initiationOf sent.ephemeralPrivate sent.localIndex timestamp)) := by
  have hroom : handshakeInitSz ≤ dstLen := by
    by_contra hsmall
    rw [formatHandshakeInitiation, if_pos (Nat.not_le.mp hsmall)] at call
    cases call
  have hcall := call
  rw [formatHandshakeInitiation, if_neg (Nat.not_lt.mpr hroom)] at hcall
  obtain ⟨⟨timestamp, w₁⟩, hstamp, -⟩ := bind_ok_iff.mp hcall
  obtain ⟨stamped, hstampAt, hread⟩ := bind_ok_iff.mp hstamp
  cases hread
  obtain ⟨packet', h₁, w₂, sent, hformat, hstate, -, -, hindex, -, -, hsent, hparse⟩ :=
    formatHandshakeInitiation_eq (w := w) hparams hidx hroom hstampAt
  cases call.symm.trans hformat
  exact ⟨_, sent, hstampAt, hstate, hindex ▸ hidx, hsent, hparse⟩

theorem Tunn.updateTimers_resends {t t' : Tunn K} {w w' : World K N BYTES} {dstLen : ℕ}
    {sent : HandshakeInitSentState K} {packet : Bytes} (hstate : t.handshake.state = .initSent sent)
    (call : t.updateTimers dstLen w = .ok (.writeToNetwork packet, t', w')) :
    ∃ cookies h' w₂, sent.timeSent + rekeyTimeout ≤ w.clock (w.reads + 1) ∧
      { t.handshake with cookies := cookies }.formatHandshakeInitiation dstLen t.stamper
        w.now.2.now.2 = .ok (.ok packet, h', w₂) := by
  obtain ⟨t₁, hexpire, call⟩ := bind_ok_iff.mp call
  have hsame := updateSessionTimers_ok hexpire
  split at call
  · cases call
  obtain ⟨t₂, hcookie, call⟩ := bind_ok_iff.mp call
  obtain ⟨writeCookie, hcleared⟩ := clearOldCookie_ok hcookie
  have hstate₂ : t₂.handshake.state = .initSent sent := by
    rw [hcleared, hsame]
    exact hstate
  obtain ⟨old, -, call⟩ := bind_ok_iff.mp call
  cases old with
  | true =>
    obtain ⟨⟨t₃, w₃⟩, -, call⟩ := bind_ok_iff.mp call
    cases call
  | false =>
    have htimer : t₂.handshake.timer = some sent.timeSent := by
      rw [Handshake.timer, hstate₂]
      rfl
    simp only [htimer, Bool.false_eq_true, if_false] at call
    obtain ⟨tried, -, call⟩ := bind_ok_iff.mp call
    cases tried with
    | true =>
      obtain ⟨⟨t₃, w₃⟩, -, call⟩ := bind_ok_iff.mp call
      cases call
    | false =>
      simp only [Bool.false_eq_true, if_false] at call
      split at call
      · rename_i hdue
        have hlater : sent.timeSent + rekeyTimeout ≤ w.clock (w.reads + 1) := by
          have hpos : 0 < rekeyTimeout := by decide
          change rekeyTimeout ≤ w.clock (w.reads + 1) - sent.timeSent at hdue
          omega
        have hawake : t₂.handshake.isExpired = false := by
          rw [Handshake.isExpired, hstate₂]
        rw [formatHandshakeInitiation, Bool.not_true, Bool.and_false, if_neg Bool.false_ne_true,
          clearTimersIfExpired, if_neg (by rw [hawake]; exact Bool.false_ne_true)] at call
        obtain ⟨⟨packet', h', w₂⟩, hformat, call⟩ := bind_ok_iff.mp call
        cases packet' with
        | error e => cases call
        | ok packet' =>
          cases call
          rw [hcleared, hsame] at hformat
          exact ⟨_, h', w', hlater, hformat⟩
      · cases call

/-- A responder with the parameters `params` that accepted `first` last accepts `second`. -/
def Renews (params : NoiseParams K) (first second : Bytes) : Prop :=
  ∃ p₁ p₂ newest hash chainingKey, parseIncomingPacket first = .ok (.handshakeInit p₁) ∧
    parseIncomingPacket second = .ok (.handshakeInit p₂) ∧
    params.openInitiation p₁ = .ok (.ok (newest, hash, chainingKey)) ∧
    ∀ (N BYTES : ℕ) (responder : Handshake K) (dstLen : ℕ) (w : World K N BYTES),
      responder.params = params → responder.nextLocalIndex < 2 ^ 32 →
      responder.lastHandshakeTimestamp = newest → handshakeRespSz ≤ dstLen →
      ∃ answer responder' w',
        responder.receiveHandshakeInitialization p₂ dstLen w = .ok (.ok answer, responder', w')

variable {h₁ h₁' h₂ h₂' : Handshake K} {w₁ w₁' w₂ w₂' : World K N BYTES} {dst₁ dst₂ : ℕ}
  {a b : K.Secret} {stamper : TimeStamper} {first second : Bytes}

/-- A timeout is far longer than what whitening loses. -/
theorem Handshake.renews (hK : K.Lawful) (hparams₁ : h₁.params = .ofPeer a b)
    (hparams₂ : h₂.params = .ofPeer a b) (hidx₁ : h₁.nextLocalIndex < 2 ^ 32)
    (hidx₂ : h₂.nextLocalIndex < 2 ^ 32) (hstart : stamper.instantAtStart ≤ w₁.clock w₁.reads)
    (hlater : w₁.clock w₁.reads + rekeyTimeout ≤ w₂.clock w₂.reads)
    (call₁ : h₁.formatHandshakeInitiation dst₁ stamper w₁ = .ok (.ok first, h₁', w₁'))
    (call₂ : h₂.formatHandshakeInitiation dst₂ stamper w₂ = .ok (.ok second, h₂', w₂')) :
    Renews (.ofPeer b a) first second := by
  obtain ⟨timestamp₁, sent₁, hstamp₁, -, -, -, hparse₁⟩ :=
    formatHandshakeInitiation_reads hparams₁ hidx₁ call₁
  obtain ⟨timestamp₂, sent₂, hstamp₂, -, hsender, -, hparse₂⟩ :=
    formatHandshakeInitiation_reads hparams₂ hidx₂ call₂
  have hopen₁ := openInitiation_sealInitiation a b sent₁.ephemeralPrivate hK sent₁.localIndex
    (TimeStamper.length_stampAt hstamp₁)
  have hopen₂ := openInitiation_sealInitiation a b sent₂.ephemeralPrivate hK sent₂.localIndex
    (TimeStamper.length_stampAt hstamp₂)
  refine ⟨_, _, _, _, _, hparse₁, hparse₂, hopen₁, fun N BYTES responder dstLen w hparams hidx
    hnewest hdst => ?_⟩
  have hafter : (Tai64N.parse timestamp₂).after responder.lastHandshakeTimestamp = true := by
    rw [hnewest, TimeStamper.parse_stampAt hstamp₁, TimeStamper.parse_stampAt hstamp₂]
    have hwhitened : TimeStamper.whitener ≤ rekeyTimeout := by decide
    exact TimeStamper.tai64N_strict (by omega)
  rw [← hparams] at hopen₂
  obtain ⟨packet, responder', w', f, haccept, -⟩ :=
    receiveHandshakeInitialization_eq hidx hsender hdst hopen₂ hafter
  exact ⟨_, responder', w', haccept⟩

/-- Stamps follow the clock, and an initiation that is sent again after the timeout is not taken
for a replay of the one before. -/
theorem TimeStamper.stamps_follow_clock (hK : K.Lawful) (stamper : TimeStamper) :
    (∀ t₁ t₂, t₁ ≤ t₂ → tai64Base + stamper.unixTimeSecsAtStart + t₂ / nanosPerSec < 2 ^ 64 →
      ∃ first second, stamper.stampAt (stamper.instantAtStart + t₁) = .ok first ∧
        stamper.stampAt (stamper.instantAtStart + t₂) = .ok second ∧
        (Tai64N.parse first).after (Tai64N.parse second) = false ∧
        (t₁ + whitener ≤ t₂ → (Tai64N.parse second).after (Tai64N.parse first) = true)) ∧
    ∀ {a b} {h₁ h₁' : Handshake K} {dst₁} {w₁ w₁' : World K N BYTES} {first},
      h₁.params = .ofPeer a b → h₁.nextLocalIndex < 2 ^ 32 →
      stamper.instantAtStart ≤ w₁.clock w₁.reads →
      h₁.formatHandshakeInitiation dst₁ stamper w₁ = .ok (.ok first, h₁', w₁') →
      (∀ {h₂ h₂' : Handshake K} {dst₂} {w₂ w₂' : World K N BYTES} {second},
        h₂.params = .ofPeer a b → h₂.nextLocalIndex < 2 ^ 32 →
        w₁.clock w₁.reads + rekeyTimeout ≤ w₂.clock w₂.reads →
        h₂.formatHandshakeInitiation dst₂ stamper w₂ = .ok (.ok second, h₂', w₂') →
        Renews (.ofPeer b a) first second) ∧
      ∀ {t t' : Tunn K} {dstLen} {w w' : World K N BYTES} {second},
        t.handshake.params = .ofPeer a b → t.handshake.nextLocalIndex < 2 ^ 32 →
        t.stamper = stamper → t.handshake.state = h₁'.state → w.clock = w₁.clock →
        Monotone w.clock → t.updateTimers dstLen w = .ok (.writeToNetwork second, t', w') →
        Renews (.ofPeer b a) first second := by
  refine ⟨fun t₁ t₂ hle hfits => ?_, ?_⟩
  · have hfits₁ : tai64Base + stamper.unixTimeSecsAtStart + t₁ / nanosPerSec < 2 ^ 64 :=
      (Nat.add_le_add_left (Nat.div_le_div_right hle) _).trans_lt hfits
    have hstamp₁ := stampAt_eq hfits₁
    have hstamp₂ := stampAt_eq hfits
    refine ⟨_, _, hstamp₁, hstamp₂, ?_, fun hstep => ?_⟩
    · rw [parse_stampAt hstamp₁, parse_stampAt hstamp₂, Nat.add_sub_cancel_left,
        Nat.add_sub_cancel_left]
      exact tai64N_mono hle
    · rw [parse_stampAt hstamp₁, parse_stampAt hstamp₂, Nat.add_sub_cancel_left,
        Nat.add_sub_cancel_left]
      exact tai64N_strict hstep
  · intro a b h₁ h₁' dst₁ w₁ w₁' first hparams₁ hidx₁ hstart call₁
    refine ⟨fun hparams₂ hidx₂ hlater call₂ =>
      Handshake.renews hK hparams₁ hparams₂ hidx₁ hidx₂ hstart hlater call₁ call₂, ?_⟩
    intro t t' dstLen w w' second hparams hidx hstamper hstate hclock hmono call
    obtain ⟨timestamp, sent, -, hsent, -, htime, -⟩ :=
      Handshake.formatHandshakeInitiation_reads hparams₁ hidx₁ call₁
    obtain ⟨cookies, h', w₂, hdue, call₂⟩ := Tunn.updateTimers_resends (hstate.trans hsent) call
    rw [hstamper] at call₂
    refine Handshake.renews hK hparams₁ ?_ hidx₁ ?_ hstart ?_ call₁ call₂
    · exact hparams
    · exact hidx
    · -- The timeout starts behind the first stamp and ends before the second.
      calc w₁.clock w₁.reads + rekeyTimeout
          ≤ sent.timeSent + rekeyTimeout := by
            rw [htime, ← hclock]
            exact Nat.add_le_add_right (hmono (Nat.le_succ _)) _
        _ ≤ w.clock (w.reads + 1) := hdue
        _ ≤ w.now.2.now.2.clock w.now.2.now.2.reads := hmono (Nat.le_succ _)
namespace Sample

def later : World Crypto.sample 8 8192 := { world with reads := 5000010, draws := 1 }

def resent : Call (Bytes × Bytes) := do
  let (first, h, _) ←
    initiator.1.handshake.formatHandshakeInitiation maxPacketSize ⟨0, 0⟩ world
  let (second, _, _) ← { initiator.1 with handshake := h }.updateTimers maxPacketSize later
  match first, second with
  | .ok first, .writeToNetwork second => return (first, second)
  | _, _ => .error .arithmeticOverflow

end Sample

theorem TimeStamper.stamps_follow_clock_resent :
    (∃ first second, stampAt ⟨0, 0⟩ 0 = .ok first ∧ stampAt ⟨0, 0⟩ whitener = .ok second ∧
      (Tai64N.parse second).after (Tai64N.parse first) = true) ∧
    ∃ first second, Sample.resent = .ok (first, second) ∧
      Renews (.ofPeer Sample.responderSecret Sample.initiatorSecret) first second := by
  obtain ⟨hordered, hrenews⟩ := @stamps_follow_clock _ 8 8192 Crypto.sample_lawful ⟨0, 0⟩
  constructor
  · obtain ⟨first, second, hfirst, hsecond, -, hafter⟩ :=
      hordered 0 whitener (Nat.zero_le _) (by decide)
    exact ⟨first, second, hfirst, hsecond, hafter (Nat.zero_add _).le⟩
  · have hsent : okAnd (fun _ => true) Sample.resent = true := by decide +kernel
    obtain ⟨⟨first, second⟩, hresent, -⟩ := exists_of_okAnd hsent
    refine ⟨first, second, hresent, ?_⟩
    obtain ⟨⟨r₁, h, w₁⟩, hformat, hresent⟩ := bind_ok_iff.mp hresent
    obtain ⟨⟨r₂, t, w₂⟩, htimers, hresent⟩ := bind_ok_iff.mp hresent
    dsimp only at hresent
    split at hresent
    · cases hresent
      have hclock : Monotone Sample.later.clock := fun _ _ hab => Nat.mul_le_mul_right 1000 hab
      obtain ⟨sent, cookies, -, -, rfl, -⟩ := Handshake.formatHandshakeInitiation_ok hformat
      have hidx : nextIndex Sample.initiator.1.handshake.nextLocalIndex < 2 ^ 32 := by decide
      obtain ⟨-, hagain⟩ := hrenews rfl (by decide) (Nat.zero_le _) hformat
      exact hagain (w := Sample.later) rfl hidx rfl rfl rfl hclock htimers
    · cases hresent

end Tendrilix.Noise
