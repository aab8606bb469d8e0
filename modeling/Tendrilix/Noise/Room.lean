import Tendrilix.Ensures
import Tendrilix.Noise.TunnSpec

/-!
# Calls that measure nothing

Only encryption and decryption check the size of the destination buffer, and only the timers subtract
durations. Whatever else a tunnel does may fail for another reason, but not for these two.
-/

namespace Tendrilix

abbrev Roomy {α : Type} (call : Call α) : Prop := Avoids Fault.destinationBufferTooSmall call

namespace Noise

variable {K : Crypto} {N BYTES : ℕ}

/-! ### Timers -/

section Timely

variable {f : Fault}

theorem elapsedAtLeast_avoids {now t : ℕ} (htime : f = .durationUnderflow → t ≤ now) (limit : ℕ) :
    Avoids f (elapsedAtLeast now t limit) := by
  rw [elapsedAtLeast]
  split
  · exact .ok _
  · rename_i hlate
    apply Avoids.error
    rintro rfl
    exact hlate (htime rfl)

theorem elapsedWhen_avoids {now t : ℕ} (cond : Bool) (htime : f = .durationUnderflow → t ≤ now)
    (limit : ℕ) : Avoids f (elapsedWhen cond now t limit) := by
  rw [elapsedWhen]
  split
  · exact elapsedAtLeast_avoids htime limit
  · exact .ok _

namespace Timers

variable {t t' : Timers} {now : ℕ} {b : Bool}

theorem replyOverdue_timers (call : t.replyOverdue now = .ok (b, t')) : t'.timers = t.timers := by
  obtain ⟨elapsed, -, call⟩ := bind_ok_iff.mp call
  cases elapsed with
  | true =>
    cases call
    rfl
  | false =>
    cases call
    rfl

theorem keepaliveDue_timers (call : t.keepaliveDue now = .ok (b, t')) : t'.timers = t.timers := by
  obtain ⟨elapsed, -, call⟩ := bind_ok_iff.mp call
  cases elapsed with
  | true =>
    cases call
    rfl
  | false =>
    cases call
    rfl

variable (htime : f = .durationUnderflow → ∀ name, t.timers name ≤ now)

include htime

theorem rekeyDue_avoids : Avoids f (t.rekeyDue now) := by
  rw [rekeyDue]
  split
  · refine .bind (elapsedWhen_avoids _ (fun hf => htime hf _) _) fun onSend _ => ?_
    exact .bind (elapsedWhen_avoids _ (fun hf => htime hf _) _) fun onReceive _ => .ok _
  · exact .ok _

theorem replyOverdue_avoids : Avoids f (t.replyOverdue now) := by
  refine .bind (elapsedWhen_avoids _ (fun hf => htime hf _) _) fun elapsed _ => ?_
  cases elapsed with
  | true => exact .ok _
  | false => exact .ok _

theorem keepaliveDue_avoids : Avoids f (t.keepaliveDue now) := by
  refine .bind (elapsedWhen_avoids _ (fun hf => htime hf _) _) fun elapsed _ => ?_
  cases elapsed with
  | true => exact .ok _
  | false => exact .ok _

theorem persistentKeepaliveDue_avoids : Avoids f (t.persistentKeepaliveDue now) := by
  rw [persistentKeepaliveDue]
  split
  · split
    · exact .ok _
    · refine .bind (elapsedAtLeast_avoids (fun hf => htime hf _) _) fun elapsed _ => ?_
      cases elapsed with
      | true => exact .ok _
      | false => exact .ok _
  · exact .ok _

theorem due_avoids : Avoids f (t.due now) := by
  refine .bind (rekeyDue_avoids htime) fun rekey _ => ?_
  refine .bind (replyOverdue_avoids htime) fun (overdue, t₁) hreply => ?_
  rw [← replyOverdue_timers hreply] at htime
  dsimp only
  split
  · exact .ok _
  · refine .bind (keepaliveDue_avoids htime) fun (idle, t₂) hidle => ?_
    rw [← keepaliveDue_timers hidle] at htime
    exact .bind (persistentKeepaliveDue_avoids htime) fun _ _ => .ok _

end Timers

namespace Tunn

theorem updateSessionTimers_avoids (t : Tunn K) {timeNow : ℕ}
    (htime : f = .durationUnderflow → ∀ i, t.timers.sessionTimers i ≤ timeNow) :
    Avoids f (t.updateSessionTimers timeNow) := by
  refine .foldlM (I := fun t : Tunn K => f = .durationUnderflow →
    ∀ i, t.timers.sessionTimers i ≤ timeNow) (fun t i htime => ?_) (fun t i t' htime call => ?_) _ htime
  · rw [expireSlot]
    dsimp only
    split
    · rename_i hlate
      apply Avoids.error
      rintro rfl
      exact absurd (htime rfl i) (Nat.not_le.mpr hlate)
    split
    · exact .ok _
    · exact .ok _
  · intro hf j
    rw [expireSlot_ok call]
    split
    · change Function.update t.timers.sessionTimers i timeNow j ≤ timeNow
      rw [Function.update_apply]
      split
      · exact le_rfl
      · exact htime hf j
    · exact htime hf j

theorem clearOldCookie_avoids (t : Tunn K) {now : ℕ}
    (htime : f = .durationUnderflow → t.timers.timers .timeCookieReceived ≤ now) :
    Avoids f (t.clearOldCookie now) := by
  rw [clearOldCookie]
  split
  · refine .bind (elapsedAtLeast_avoids htime _) fun old _ => ?_
    cases old with
    | true => exact .ok _
    | false => exact .ok _
  · exact .ok _

theorem clearOldCookie_timers {t t' : Tunn K} {now : ℕ} (call : t.clearOldCookie now = .ok t') :
    t'.timers = t.timers := by
  obtain ⟨writeCookie, rfl⟩ := clearOldCookie_ok call
  rfl

end Tunn

end Timely

/-! ### Handshake messages -/

section Measured

variable {f : Fault} (hf : f.Measured)

include hf

theorem TimeStamper.stamp_avoids (stamper : TimeStamper) (w : World K N BYTES) :
    Avoids f (stamper.stamp w) := by
  refine .bind ?_ fun _ _ => .ok _
  refine .bind (addU64_avoids hf _ _) fun start _ => ?_
  exact .bind (addU64_avoids hf _ _) fun seconds _ => .ok _

theorem aeadChacha20Open_avoids (bufferLen : ℕ) (key : Bytes) (counter : ℕ) (data aad : Bytes) :
    Avoids f (aeadChacha20Open K bufferLen key counter data aad) := by
  rw [aeadChacha20Open]
  split
  · exact .ok _
  dsimp only
  split
  · exact .unmeasured hf id
  split
  · exact .ok _
  · exact .ok _

theorem parseHandshakeAnon_avoids (staticPrivate : K.Secret) (staticPublic : Bytes)
    (p : HandshakeInit) : Avoids f (parseHandshakeAnon K staticPrivate staticPublic p) :=
  aeadChacha20Open_avoids hf _ _ _ _ _

namespace NoiseParams

theorem openInitiation_avoids (params : NoiseParams K) (p : HandshakeInit) :
    Avoids f (params.openInitiation p) := by
  refine .bind (aeadChacha20Open_avoids hf _ _ _ _ _) fun opened _ => ?_
  cases opened with
  | error e => exact .ok _
  | ok key =>
    dsimp only
    split
    · exact .ok _
    · refine .bind (aeadChacha20Open_avoids hf _ _ _ _ _) fun timestamp _ => ?_
      cases timestamp with
      | error e => exact .ok _
      | ok timestamp => exact .ok _

theorem openResponse_avoids (params : NoiseParams K) (state : HandshakeInitSentState K)
    (p : HandshakeResponse) : Avoids f (params.openResponse state p) := by
  refine .bind (aeadChacha20Open_avoids hf _ _ _ _ _) fun opened _ => ?_
  cases opened with
  | error e => exact .ok _
  | ok nothing => exact .ok _

end NoiseParams

namespace Handshake

theorem formatHandshakeInitiation_avoids (h : Handshake K) (dstLen : ℕ) (stamper : TimeStamper)
    (w : World K N BYTES) : Avoids f (h.formatHandshakeInitiation dstLen stamper w) := by
  rw [formatHandshakeInitiation]
  split
  · exact .ok _
  · exact .bind (stamper.stamp_avoids hf _) fun _ _ => .ok _

theorem receiveHandshakeInitialization_avoids (h : Handshake K) (p : HandshakeInit) (dstLen : ℕ)
    (w : World K N BYTES) : Avoids f (h.receiveHandshakeInitialization p dstLen w) := by
  refine .bind (h.params.openInitiation_avoids hf p) fun opened _ => ?_
  cases opened with
  | error e => exact .ok _
  | ok opened =>
    dsimp only
    split
    · exact .ok _
    · rw [formatHandshakeResponse]
      split
      · exact .ok _
      · exact .ok _

theorem receiveHandshakeResponse_avoids (h : Handshake K) (p : HandshakeResponse)
    (w : World K N BYTES) : Avoids f (h.receiveHandshakeResponse p w) := by
  rw [receiveHandshakeResponse]
  split
  · exact .ok _
  · refine .bind (h.params.openResponse_avoids hf _ p) fun opened _ => ?_
    cases opened with
    | error e => exact .ok _
    | ok keys => exact .ok _

theorem receiveCookieReply_avoids (h : Handshake K) (p : CookieReply) :
    Avoids f (h.receiveCookieReply p) := by
  rw [receiveCookieReply]
  split
  · exact .ok _
  split
  · exact .ok _
  dsimp only
  split
  · exact .ok _
  split
  · exact .unmeasured hf id
  split
  · exact .ok _
  · exact .ok _

end Handshake

/-! ### Received packets -/

namespace ReceivingKeyCounterValidator

theorem willAccept_avoids (v : ReceivingKeyCounterValidator) (counter : ℕ) :
    Avoids f (v.willAccept counter) := by
  rw [willAccept]
  split
  · exact .ok _
  · refine .bind (addU64_avoids hf _ _) fun edge _ => ?_
    split
    · exact .ok _
    split
    · exact .ok _
    · exact .ok _

theorem clearToWord_avoids (counter fuel : ℕ) (v : ReceivingKeyCounterValidator) (i : ℕ) :
    Avoids f (clearToWord counter fuel v i) := by
  induction fuel generalizing v i with
  | zero => exact .unmeasured hf id
  | succ fuel ih =>
    rw [clearToWord]
    split
    · exact .bind (addU64_avoids hf _ _) fun i' _ => ih _ i'
    · exact .ok _

theorem clearWords_avoids (counter fuel : ℕ) (v : ReceivingKeyCounterValidator) (i : ℕ) :
    Avoids f (clearWords counter fuel v i) := by
  induction fuel generalizing v i with
  | zero => exact .unmeasured hf id
  | succ fuel ih =>
    rw [clearWords]
    refine .bind (addU64_avoids hf _ _) fun edge _ => ?_
    split
    · exact .bind (addU64_avoids hf _ _) fun i' _ => ih _ _
    · exact .ok _

theorem clearRest_avoids (counter fuel : ℕ) (v : ReceivingKeyCounterValidator) (i : ℕ) :
    Avoids f (clearRest counter fuel v i) := by
  induction fuel generalizing v i with
  | zero => exact .unmeasured hf id
  | succ fuel ih =>
    rw [clearRest]
    split
    · exact .bind (addU64_avoids hf _ _) fun i' _ => ih _ i'
    · exact .ok _

theorem markDidReceive_avoids (v : ReceivingKeyCounterValidator) (counter : ℕ) :
    Avoids f (v.markDidReceive counter) := by
  refine .bind (addU64_avoids hf _ _) fun edge _ => ?_
  split
  · exact .ok _
  dsimp only [pure_bind]
  split
  · exact .bind (addU64_avoids hf _ _) fun next _ => .ok _
  split
  · split
    · exact .ok _
    · exact .ok _
  refine .bind ?_ fun v _ => .bind (addU64_avoids hf _ _) fun next _ => .ok _
  rw [clearSkipped]
  split
  · exact .ok _
  · refine .bind (clearToWord_avoids hf _ _ _ _) fun _ _ => ?_
    refine .bind (clearWords_avoids hf _ _ _ _) fun _ _ => ?_
    exact clearRest_avoids hf _ _ _ _

end ReceivingKeyCounterValidator

theorem Session.receivePacketData_avoids (s : Session) (p : Data) {dstLen : ℕ}
    (hroom : f = .destinationBufferTooSmall → p.encryptedEncapsulatedPacket.length ≤ dstLen) :
    Avoids f (s.receivePacketData K p dstLen) := by
  rw [receivePacketData]
  split
  · rename_i hsmall
    apply Avoids.error
    rintro rfl
    exact absurd (hroom rfl) (Nat.not_le.mpr hsmall)
  split
  · exact .ok _
  split
  · exact .ok _
  refine .bind (s.receivingKeyCounter.willAccept_avoids hf _) fun accepted _ => ?_
  cases accepted with
  | error e => exact .ok _
  | ok u =>
    dsimp only
    split
    · exact .unmeasured hf id
    split
    · exact .ok _
    · refine .bind (.bind (s.receivingKeyCounter.markDidReceive_avoids hf _) fun r _ => ?_) fun r _ => ?_
      · obtain ⟨ret, v⟩ := r
        cases ret with
        | error e => exact .ok _
        | ok u => exact .bind (addU64_avoids hf _ _) fun _ _ => .ok _
      · obtain ⟨marked, s⟩ := r
        cases marked with
        | error e => exact .ok _
        | ok u => exact .ok _

end Measured

end Noise

end Tendrilix
