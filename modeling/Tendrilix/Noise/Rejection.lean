import Tendrilix.Noise.Run
import Tendrilix.Noise.TunnSpec

/-!
# Rejected packets

A packet that a tunnel rejects leaves the tunnel as it was. The one exception is a plaintext that
was decrypted and then turned out not to be an IP packet: its counter has been used up.
-/

namespace Tendrilix.Noise.Tunn

variable {K : Crypto} {N BYTES : ℕ} {t t' : Tunn K} {w w' : World K N BYTES} {dstLen : ℕ}
  {e : WireGuardError}

/-- An error of a data packet comes from decryption, or from what was decrypted. -/
theorem handleVerifiedPacket_err {packet : Packet} (hdst : handshakeRespSz ≤ dstLen)
    (call : t.handleVerifiedPacket packet dstLen w = .ok (.err e, t', w')) :
    (t' = t ∧ w' = w) ∨ ∃ p plaintext t₁, packet = .data p ∧
      t.decryptRawData p dstLen = .ok (.ok plaintext, t₁) ∧
      (t₁.validateDecapsulatedPacket plaintext).1 = .err e := by
  cases handleVerifiedPacket_cases call with
  | refuse hreceive =>
    left
    obtain ⟨rfl, rfl | ⟨_, _, _, hsmall, -⟩⟩ := Handshake.receiveHandshakeInitialization_error hreceive
    · exact ⟨rfl, rfl⟩
    · omega
  | misdirected hreceive =>
    obtain ⟨rfl, rfl⟩ := Handshake.receiveHandshakeResponse_error hreceive
    exact .inl ⟨rfl, rfl⟩
  | refuseCookie hreceive =>
    rw [Handshake.receiveCookieReply_error hreceive]
    exact .inl ⟨rfl, rfl⟩
  | reject hdecrypt => exact .inl ⟨decryptRawData_error hdecrypt, rfl⟩
  | receive hdecrypt hvalid => exact .inr ⟨_, _, _, rfl, hdecrypt, congrArg Prod.fst hvalid⟩
  | foreign => exact .inl ⟨rfl, rfl⟩

theorem handleVerifiedRelayPacket_err {packet : Packet}
    (call : t.handleVerifiedRelayPacket packet dstLen = .ok (.error e, t')) : t' = t := by
  cases packet with
  | relayData p => exact decryptRawData_error call
  | _ =>
    cases call
    rfl

/-- What a tunnel rejects changes neither the tunnel nor what it shares with others, whatever the
tunnel, the packet and the reason. -/
theorem rejected_unchanged (t : Tunn K) (w : World K N BYTES) (packet : Packet)
    (hdst : handshakeRespSz ≤ dstLen) :
    (∀ e t' w', t.handleVerifiedPacket packet dstLen w = .ok (.err e, t', w') →
      (t' = t ∧ w' = w) ∨ ∃ p plaintext t₁, packet = .data p ∧
        t.decryptRawData p dstLen = .ok (.ok plaintext, t₁) ∧
        (t₁.validateDecapsulatedPacket plaintext).1 = .err e) ∧
    ∀ e t', t.handleVerifiedRelayPacket packet dstLen = .ok (.error e, t') → t' = t := by
  constructor
  · intro e t' w' call
    exact handleVerifiedPacket_err hdst call
  · intro e t' call
    exact handleVerifiedRelayPacket_err call

/-- The responder refuses an initiation that it has already answered. -/
theorem rejected_unchanged_replay :
    ∃ replies t w p t' w',
      Machine.run step Sample.responder [.handleVerifiedPacket Sample.initiation maxPacketSize] =
        .ok (replies, t, w) ∧
      parseIncomingPacket Sample.initiation = .ok (.handshakeInit p) ∧
      t.handleVerifiedPacket (.handshakeInit p) maxPacketSize w =
        .ok (.err .wrongTimestamp, t', w') ∧ t' = t := by
  have hrun : okAnd (fun (_, t, w) => okAnd (fun packet => okAnd (fun (r, _, _) =>
        r = .err .wrongTimestamp && packet matches .handshakeInit _)
        (t.handleVerifiedPacket packet maxPacketSize w)) (parseIncomingPacket Sample.initiation))
      (Machine.run step Sample.responder
        [.handleVerifiedPacket Sample.initiation maxPacketSize]) = true := by decide +kernel
  obtain ⟨⟨replies, t, w⟩, hrun, h⟩ := exists_of_okAnd hrun
  obtain ⟨packet, hparse, h⟩ := exists_of_okAnd h
  obtain ⟨⟨r, t', w'⟩, hcall, h⟩ := exists_of_okAnd h
  obtain ⟨hr, hinit⟩ : r = .err .wrongTimestamp ∧ _ := by simpa using h
  subst hr
  cases packet with
  | handshakeInit p =>
    refine ⟨replies, t, w, p, t', w', hrun, hparse, hcall, ?_⟩
    rcases (rejected_unchanged t w (.handshakeInit p) (by decide)).1 _ t' w' hcall with h | h
    · exact h.1
    · obtain ⟨q, -, -, hq, -⟩ := h
      cases hq
  | _ => simp at hinit

end Tendrilix.Noise.Tunn
