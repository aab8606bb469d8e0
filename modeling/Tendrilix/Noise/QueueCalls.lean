import Tendrilix.Noise.Datagram
import Tendrilix.Noise.PendingQueue
import Tendrilix.Noise.Room

/-!
# What tunnel calls do to the pending queue

Calls that leave the queue and the pool as they are, and how long the messages of a handshake are.
-/

namespace Tendrilix.Noise

open IntrusiveQueue Bytes

variable {K : Crypto} {N BYTES : ℕ}

/-! ### Lengths -/

theorem Handshake.appendMac1AndMac2_length (h : Handshake K) (localIndex : ℕ) (msg : Bytes) :
    (h.appendMac1AndMac2 localIndex msg).1.length = msg.length + 32 := by
  rw [appendMac1AndMac2]
  cases h.cookies.writeCookie with
  | none => simp [b2sKeyedMac16, K.length_mac16]
  | some cookie => simp [b2sKeyedMac16, K.length_mac16]

theorem TimeStamper.stamp_length {stamper : TimeStamper} {w w' : World K N BYTES}
    {timestamp : Bytes} (call : stamper.stamp w = .ok (timestamp, w')) :
    timestamp.length = timestampLen := by
  obtain ⟨stamp, hstamp, call⟩ := bind_ok_iff.mp call
  cases call
  rw [stampAt] at hstamp
  obtain ⟨start, -, hstamp⟩ := bind_ok_iff.mp hstamp
  obtain ⟨seconds, -, hstamp⟩ := bind_ok_iff.mp hstamp
  cases hstamp
  simp [timestampLen, length_toBe]

theorem Handshake.formatHandshakeInitiation_length {h h' : Handshake K} {dstLen : ℕ}
    {stamper : TimeStamper} {w w' : World K N BYTES} {packet : Bytes}
    (hparams : h.params.staticPublic.length = 32)
    (call : h.formatHandshakeInitiation dstLen stamper w = .ok (.ok packet, h', w')) :
    packet.length = handshakeInitSz := by
  rw [formatHandshakeInitiation] at call
  split at call
  · cases call
  · obtain ⟨⟨timestamp, w₁⟩, hstamp, call⟩ := bind_ok_iff.mp call
    have htimestamp := TimeStamper.stamp_length hstamp
    cases call
    refine (appendMac1AndMac2_length _ h.nextLocalIndex _).trans ?_
    simp only [List.length_append, length_toLe, K.length_publicKey, NoiseParams.sealInitiation,
      length_aeadChacha20Seal, htimestamp, hparams]
    decide

theorem Handshake.receiveHandshakeInitialization_length {h h' : Handshake K} {p : HandshakeInit}
    {dstLen : ℕ} {w w' : World K N BYTES} {packet : Bytes} {s : Session}
    (call : h.receiveHandshakeInitialization p dstLen w = .ok (.ok (packet, s), h', w')) :
    packet.length = handshakeRespSz := by
  obtain ⟨timestamp, hash, chainingKey, -, -, call⟩ := receiveHandshakeInitialization_format call
  rw [formatHandshakeResponse] at call
  split at call
  · cases call
  · cases call
    refine (appendMac1AndMac2_length _ h.nextLocalIndex _).trans ?_
    simp only [List.length_append, length_toLe, K.length_publicKey, length_aeadChacha20Seal,
      List.length_nil]
    decide

/-! ### Calls that leave the queue alone -/

namespace Tunn

variable {t t' t'' : Tunn K} {w w' w'' : World K N BYTES} {items items' : List (ℕ × QueuedPacket)}
  {packetType : MessageType} {src : Bytes} {dstLen : ℕ} {r : TunnResult}

structure SameQueue (t : Tunn K) (w : World K N BYTES) (t' : Tunn K) (w' : World K N BYTES) :
    Prop where
  queue_eq : t'.packetQueue = t.packetQueue
  pool_eq : w'.pool = w.pool
  clock_eq : w'.clock = w.clock
  reads_le : w.reads ≤ w'.reads

theorem SameQueue.refl (t : Tunn K) (w : World K N BYTES) : SameQueue t w t w :=
  ⟨rfl, rfl, rfl, le_rfl⟩

theorem SameQueue.trans (h : SameQueue t w t' w') (h' : SameQueue t' w' t'' w'') :
    SameQueue t w t'' w'' :=
  ⟨h'.queue_eq.trans h.queue_eq, h'.pool_eq.trans h.pool_eq, h'.clock_eq.trans h.clock_eq,
    h.reads_le.trans h'.reads_le⟩

theorem SameQueue.moved (h : SameQueue t w t' w') (hp : w.pool.WF)
    (hholds : Holds w.pool.view t.packetQueue items) : QueueMoved t w items t' w' items := by
  refine ⟨h.pool_eq ▸ hp, ?_, ?_, h.clock_eq, h.reads_le⟩
  · rw [h.queue_eq, h.pool_eq]
    exact hholds
  · rw [h.pool_eq]
    exact .refl _ _

@[simp] theorem setCurrentSession_packetQueue (t : Tunn K) (index : ℕ) :
    (t.setCurrentSession index).packetQueue = t.packetQueue := by
  rw [setCurrentSession]
  split
  · rfl
  · split <;> rfl

theorem maySend_congr (hsessions : t'.sessions = t.sessions) (hcurrent : t'.current = t.current) :
    t'.maySend = t.maySend := by
  rw [maySend, maySend, currentSession, currentSession, hsessions, hcurrent]

theorem clearTimersIfExpired_spec (t : Tunn K) (w : World K N BYTES) :
    SameQueue t w (t.clearTimersIfExpired w).1 (t.clearTimersIfExpired w).2 ∧
      (t.clearTimersIfExpired w).1.handshake = t.handshake ∧
      (t.clearTimersIfExpired w).1.sessions = t.sessions ∧
      (t.clearTimersIfExpired w).1.current = t.current := by
  rw [clearTimersIfExpired]
  split
  · exact ⟨⟨rfl, rfl, rfl, Nat.le_succ _⟩, rfl, rfl, rfl⟩
  · exact ⟨.refl _ _, rfl, rfl, rfl⟩

theorem tickSent_sameQueue (t : Tunn K) (src : Bytes) (w : World K N BYTES) :
    SameQueue t w (t.tickSent src) w := ⟨tickSent_packetQueue t src, rfl, rfl, le_rfl⟩

theorem queuePacket_maySend (call : t.queuePacket packetType src w = .ok (t', w')) :
    t'.maySend = t.maySend ∧ t'.handshake = t.handshake := by
  rw [queuePacket] at call
  split at call
  · cases call
    exact ⟨rfl, rfl⟩
  · obtain ⟨⟨dropped, t₁, w₁⟩, hdrop, call⟩ := bind_ok_iff.mp call
    obtain ⟨⟨q, pool⟩, -, call⟩ := bind_ok_iff.mp call
    obtain ⟨⟨n, q', pool'⟩, -, hdrop⟩ := bind_ok_iff.mp hdrop
    cases hdrop
    cases call
    exact ⟨rfl, rfl⟩

end Tunn

end Tendrilix.Noise
