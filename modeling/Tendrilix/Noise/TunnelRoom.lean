import Tendrilix.Noise.KeyState
import Tendrilix.Noise.TunnelQueue
import Tendrilix.PacketPool.Faults

/-!
# Room for what a tunnel writes

A tunnel panics over the size of the buffer only when what it seals or opens does not fit. Sessions
that may not send do not start to by sending.
-/

namespace Tendrilix.Noise

open IntrusiveQueue

variable {K : Crypto} {N BYTES : ℕ}

theorem Effect.params {t t' : Tunn K} {w w' : World K N BYTES} {l : Option Packet}
    (h : Effect t w l t' w') : t'.handshake.params = t.handshake.params := by
  cases h with
  | expireSessions w call => rw [Tunn.updateSessionTimers_ok call]
  | encrypt call =>
    rcases Tunn.sealWithCurrent_ok call with ⟨-, rfl, -⟩ | ⟨packet, s, -, -, -, rfl, -⟩
    · rfl
    · rfl
  | initiate call =>
    obtain ⟨sent, cookies, -, -, rfl, -⟩ := Handshake.formatHandshakeInitiation_ok call
    rfl
  | refuse call =>
    obtain ⟨-, rfl | ⟨timestamp, hash, chainingKey, -, -, rfl⟩⟩ :=
      Handshake.receiveHandshakeInitialization_error call
    · rfl
    · rfl
  | respond call =>
    obtain ⟨timestamp, hash, chainingKey, keys, cookies, -, -, -, rfl, -⟩ :=
      Handshake.receiveHandshakeInitialization_ok call
    rw [(Tunn.installResponder_installed _ _).handshake_eq]
  | conclude call =>
    obtain ⟨state, keys, -, -, -, ⟨rtt, rfl⟩, -⟩ := Handshake.receiveHandshakeResponse_ok call
    rw [(Tunn.installInitiator_installed _ _).handshake_eq]
    exact Handshake.consume_params _ _
  | reject w call => rw [Tunn.decryptRawData_error call]
  | receive w _ call =>
    obtain ⟨s, s', -, -, rfl⟩ := Tunn.decryptRawData_ok call
    exact congrArg Handshake.params (Tunn.setCurrentSession_handshake _ _)
  | _ => rfl

theorem Path.params {t t' : Tunn K} {w w' : World K N BYTES} {ls : List Packet}
    (h : Path t w ls t' w') : t'.handshake.params = t.handshake.params := by
  induction h with
  | nil => rfl
  | cons effect _ ih => exact ih.trans effect.params

namespace Tunn

variable {t t' : Tunn K} {w w' : World K N BYTES} {items : List (ℕ × QueuedPacket)}
  {packetType : MessageType} {src : Bytes} {dstLen : ℕ} {r : TunnResult}

/-! ### Sending -/

section Measured

variable {f : Fault} (hf : f.Measured)

include hf

theorem queuePacket_avoids (t : Tunn K) (packetType : MessageType) (packet : Bytes)
    (w : World K N BYTES) : Avoids f (t.queuePacket packetType packet w) := by
  rw [queuePacket]
  split
  · exact .ok _
  · refine .bind (.bind (t.packetQueue.dropExpired_avoids hf _ _) fun _ _ => .ok _)
      fun r _ => ?_
    exact .bind (r.2.1.packetQueue.push_avoids hf _ _ _ _) fun _ _ => .ok _

theorem formatHandshakeInitiation_avoids (t : Tunn K) (dstLen : ℕ) (force : Bool)
    (w : World K N BYTES) : Avoids f (t.formatHandshakeInitiation dstLen force w) := by
  rw [formatHandshakeInitiation]
  split
  · exact .ok _
  · refine .bind (Handshake.formatHandshakeInitiation_avoids hf _ _ _ _) fun r _ => ?_
    obtain ⟨packet, h, w⟩ := r
    cases packet with
    | error e => exact .ok _
    | ok packet => exact .ok _

omit hf in
theorem sealWithCurrent_avoids (t : Tunn K) (packetType : MessageType) (w : World K N BYTES)
    (hroom : f = .destinationBufferTooSmall → 32 + Session.paddedLen src.length ≤ dstLen) :
    Avoids f (t.sealWithCurrent packetType src dstLen w) := by
  intro hfault
  obtain ⟨rfl, hsmall⟩ := sealWithCurrent_error hfault
  exact absurd (hroom rfl) (Nat.not_le.mpr hsmall)

theorem encapsulateWithType_avoids (t : Tunn K) (packetType : MessageType) (w : World K N BYTES)
    (hroom : f = .destinationBufferTooSmall → 32 + Session.paddedLen src.length ≤ dstLen) :
    Avoids f (t.encapsulateWithType packetType src dstLen w) := by
  refine .bind (t.sealWithCurrent_avoids packetType w hroom) fun (written, t, w) _ => ?_
  cases written with
  | some packet => exact .ok _
  | none =>
    refine .bind (t.queuePacket_avoids hf packetType src w) fun (t, w) _ => ?_
    exact t.formatHandshakeInitiation_avoids hf dstLen false w

theorem flushQueuedPacket_avoids (t : Tunn K) (w : World K N BYTES)
    (hroom : f ≠ .destinationBufferTooSmall) : Avoids f (t.flushQueuedPacket dstLen w) := by
  refine .bind (.bind (t.packetQueue.dequeue_avoids hf w.pool) fun _ _ => .ok _)
    fun (handle, t, w) _ => ?_
  cases handle with
  | none => exact .ok _
  | some handle =>
    refine .bind (w.pool.get_avoids hf handle) fun (packetType, packet) _ => ?_
    refine .bind (t.sealWithCurrent_avoids packetType w fun h => absurd h hroom)
      fun (written, t, w) _ => ?_
    cases written with
    | some written => exact .bind (w.pool.free_avoids hf handle) fun _ _ => .ok _
    | none =>
      exact .bind (.bind (t.packetQueue.requeue_avoids hf w.pool handle) fun _ _ => .ok _)
        fun _ _ => .ok _

end Measured

theorem flushQueuedPacket_roomy (hp : w.pool.WF) (hholds : Holds w.pool.view t.packetQueue items)
    (hlen : items.length ≤ maxPendingPackets)
    (hroom : ∀ v ∈ items.map Prod.snd, 32 + Session.paddedLen v.data.length ≤ dstLen) :
    Roomy (t.flushQueuedPacket dstLen w) := by
  rcases flushQueuedPacket_spec hp hholds hlen dstLen with
    ⟨r, t', w', hcall, -⟩ | ⟨-, x, v, rest, rfl, hsmall⟩
  · rw [hcall]
    exact .ok _
  · have hfits := hroom v (by simp)
    omega

theorem encapsulateWithType_sends (hsend : t.maySend = true)
    (call : t.encapsulateWithType packetType src dstLen w = .ok (r, t', w')) :
    SameQueue t w t' w' := by
  obtain ⟨⟨written, t₁, w₁⟩, hseal, call⟩ := bind_ok_iff.mp call
  have hsame := sealWithCurrent_sameQueue hseal
  rcases sealWithCurrent_ok hseal with ⟨-, rfl, -, hexhausted⟩ | ⟨packet, s, rfl, -⟩
  · rw [maySend_eq_false hexhausted] at hsend
    cases hsend
  · cases call
    exact hsame.trans (tickSent_sameQueue t₁ src _)

theorem formatHandshakeInitiation_maySend {force : Bool}
    (call : t.formatHandshakeInitiation dstLen force w = .ok (r, t', w')) :
    t'.maySend = t.maySend := by
  rw [formatHandshakeInitiation] at call
  split at call
  · cases call
    rfl
  obtain ⟨-, -, hsessions, hcurrent⟩ := clearTimersIfExpired_spec t w
  have hsend := maySend_congr hsessions hcurrent
  dsimp only at call
  obtain ⟨⟨packet, h, w₂⟩, -, call⟩ := bind_ok_iff.mp call
  rw [← hsend]
  cases packet with
  | error e =>
    cases call
    rfl
  | ok packet =>
    cases call
    apply maySend_congr
    · split <;> rfl
    · split <;> rfl

theorem encapsulateWithType_maySend (hsend : t.maySend = false)
    (call : t.encapsulateWithType packetType src dstLen w = .ok (r, t', w')) :
    t'.maySend = false := by
  obtain ⟨⟨written, t₁, w₁⟩, hseal, hrest⟩ := bind_ok_iff.mp call
  rcases sealWithCurrent_ok hseal with ⟨rfl, rfl, rfl, -⟩ | ⟨packet, s, -, hs, hlt, -⟩
  · obtain ⟨⟨t₂, w₂⟩, hqueue, hrest⟩ := bind_ok_iff.mp hrest
    rw [formatHandshakeInitiation_maySend hrest, (queuePacket_maySend hqueue).1, hsend]
  · rw [maySend_eq_true hs hlt] at hsend
    cases hsend

theorem flushQueuedPacket_maySend (hsend : t.maySend = false)
    (call : t.flushQueuedPacket dstLen w = .ok (r, t', w')) : t'.maySend = false := by
  obtain ⟨⟨handle, t₁, w₁⟩, hdequeue, call⟩ := bind_ok_iff.mp call
  obtain ⟨⟨handle, q, pool⟩, -, hdequeue⟩ := bind_ok_iff.mp hdequeue
  cases hdequeue
  cases handle with
  | none =>
    cases call
    exact hsend
  | some handle =>
    obtain ⟨⟨packetType, packet⟩, -, call⟩ := bind_ok_iff.mp call
    obtain ⟨⟨written, t₂, w₂⟩, hseal, call⟩ := bind_ok_iff.mp call
    have hsend₁ : maySend { t with packetQueue := q } = false := hsend
    rcases sealWithCurrent_ok hseal with ⟨rfl, rfl, rfl, -⟩ | ⟨sent, s, -, hs, hlt, -⟩
    · obtain ⟨⟨t₃, w₃⟩, hrequeue, call⟩ := bind_ok_iff.mp call
      obtain ⟨⟨q', pool'⟩, -, hrequeue⟩ := bind_ok_iff.mp hrequeue
      cases hrequeue
      cases call
      exact hsend
    · rw [maySend_eq_true hs hlt] at hsend₁
      cases hsend₁

/-! ### Timers and receiving -/

section Measured

variable {f : Fault} (hf : f.Measured)

include hf

theorem clearPacketQueue_avoids (t : Tunn K) (w : World K N BYTES) : Avoids f (t.clearPacketQueue w) :=
  .bind (t.packetQueue.clear_avoids hf w.pool) fun _ _ => .ok _

theorem expire_avoids (t : Tunn K) (w : World K N BYTES) : Avoids f (t.expire w) := by
  refine .bind (.bind ?_ fun _ _ => .ok _) fun _ _ => .ok _
  exact clearPacketQueue_avoids hf { t with handshake := t.handshake.setExpired } w

theorem updateTimers_avoids (hroom : f = .destinationBufferTooSmall → 32 ≤ dstLen)
    (htime : f = .durationUnderflow →
      (∀ name, t.timers.timers name ≤ w.clock w.reads - t.timers.timeStarted) ∧
        ∀ i, t.timers.sessionTimers i ≤ w.clock w.reads - t.timers.timeStarted) :
    Avoids f (t.updateTimers dstLen w) := by
  set now := w.clock w.reads - t.timers.timeStarted with hnow
  have hset : f = .durationUnderflow → ∀ name, (t.timers.set .timeCurrent now).timers name ≤ now := by
    intro hf name
    change Function.update t.timers.timers .timeCurrent now name ≤ now
    rw [Function.update_apply]
    split
    · exact le_rfl
    · exact (htime hf).1 name
  refine .bind (updateSessionTimers_avoids _ fun hf => (htime hf).2) fun t₁ hexpire => ?_
  have htime₁ : f = .durationUnderflow → ∀ name, t₁.timers.timers name ≤ now := by
    rw [updateSessionTimers_ok hexpire]
    exact hset
  split
  · exact .ok _
  refine .bind (clearOldCookie_avoids _ fun hf => htime₁ hf _) fun t₂ hcookie => ?_
  rw [← clearOldCookie_timers hcookie] at htime₁
  refine .bind (elapsedAtLeast_avoids (fun hf => htime₁ hf _) _) fun old _ => ?_
  cases old with
  | true => exact expire_avoids hf _ _
  | false =>
    simp only [Bool.false_eq_true, if_false]
    split
    · refine .bind (elapsedAtLeast_avoids (fun hf => htime₁ hf _) _) fun tried _ => ?_
      cases tried with
      | true => exact expire_avoids hf _ _
      | false =>
        simp only [Bool.false_eq_true, if_false]
        split
        · exact t₂.formatHandshakeInitiation_avoids hf _ _ _
        · exact .ok _
    · refine .bind (Timers.due_avoids htime₁) fun (handshake, keepalive, timers) _ => ?_
      dsimp only
      split
      · exact formatHandshakeInitiation_avoids hf _ _ _ _
      split
      · exact encapsulateWithType_avoids hf _ _ _ hroom
      · exact .ok _

theorem decryptRawData_avoids (t : Tunn K) {p : Data}
    (hroom : f = .destinationBufferTooSmall → p.encryptedEncapsulatedPacket.length ≤ dstLen) :
    Avoids f (t.decryptRawData p dstLen) := by
  rw [decryptRawData]
  dsimp only
  split
  · exact .ok _
  · refine .bind (Session.receivePacketData_avoids hf _ _ hroom) fun r _ => ?_
    obtain ⟨opened, s⟩ := r
    cases opened with
    | error e => exact .ok _
    | ok plaintext => exact .ok _

theorem handleHandshakeInit_avoids (t : Tunn K) (p : HandshakeInit) (dstLen : ℕ)
    (w : World K N BYTES) : Avoids f (t.handleHandshakeInit p dstLen w) := by
  refine .bind (t.handshake.receiveHandshakeInitialization_avoids hf p dstLen w)
    fun (received, h, w) _ => ?_
  cases received with
  | error e => exact .ok _
  | ok received => exact .ok _

theorem handleHandshakeResponse_avoids (t : Tunn K) (p : HandshakeResponse) (w : World K N BYTES)
    (hroom : f = .destinationBufferTooSmall → 32 ≤ dstLen) :
    Avoids f (t.handleHandshakeResponse p dstLen w) := by
  refine .bind (t.handshake.receiveHandshakeResponse_avoids hf p w) fun (received, h, w) _ => ?_
  cases received with
  | error e => exact .ok _
  | ok s =>
    have hseal : Avoids f (w.sealPacket s MessageType.data [] dstLen) := by
      intro hfault
      obtain ⟨rfl, hsmall⟩ := World.sealPacket_error hfault
      exact absurd (hroom rfl) (Nat.not_le.mpr hsmall)
    refine .bind hseal fun (keepalive, s, w) _ => ?_
    cases keepalive with
    | none => exact .unmeasured hf id
    | some keepalive => exact .ok _

theorem handleVerifiedPacket_avoids (t : Tunn K) {packet : Packet} (w : World K N BYTES)
    (hcipher : f = .destinationBufferTooSmall →
      ∀ p, packet = .data p → p.encryptedEncapsulatedPacket.length ≤ dstLen)
    (hroom : f = .destinationBufferTooSmall → 32 ≤ dstLen) :
    Avoids f (t.handleVerifiedPacket packet dstLen w) := by
  cases packet with
  | handshakeInit p => exact .bind (t.handleHandshakeInit_avoids hf p dstLen w) fun _ _ => .ok _
  | handshakeResponse p =>
    exact .bind (t.handleHandshakeResponse_avoids hf p w hroom) fun _ _ => .ok _
  | cookieReply p =>
    refine .bind (.bind (t.handshake.receiveCookieReply_avoids hf p) fun (received, h) _ => ?_)
      fun _ _ => .ok _
    cases received with
    | error e => exact .ok _
    | ok u => exact .ok _
  | data p =>
    refine .bind (.bind (t.decryptRawData_avoids hf fun h => hcipher h p rfl) fun (opened, t) _ => ?_)
      fun _ _ => .ok _
    cases opened with
    | error e => exact .ok _
    | ok plaintext => exact .ok _
  | relayData p => exact .ok _

theorem handleVerifiedRelayPacket_avoids (t : Tunn K) {packet : Packet}
    (hcipher : f = .destinationBufferTooSmall →
      ∀ p, packet = .relayData p → p.encryptedEncapsulatedPacket.length ≤ dstLen) :
    Avoids f (t.handleVerifiedRelayPacket packet dstLen) := by
  cases packet with
  | relayData p => exact t.decryptRawData_avoids hf fun h => hcipher h p rfl
  | _ => exact .ok _

end Measured

end Tunn

end Tendrilix.Noise
