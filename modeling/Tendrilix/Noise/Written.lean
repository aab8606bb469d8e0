import Tendrilix.Noise.SessionRing
import Tendrilix.Noise.TunnelQueue

/-!
# What tunnels hand to the network

A call on a tunnel that answers with a packet has formatted a handshake message or sealed a
plaintext under a session. For every call: which plaintexts those are.
-/

namespace Tendrilix.Noise

open IntrusiveQueue Bytes

variable {K : Crypto} {N BYTES : ℕ}

def messageTypeOf (packet : Bytes) : MessageType := ofLe (slice packet 0 4)

def AnnouncesHandshake (packet : Bytes) : Prop :=
  messageTypeOf packet ∈ [MessageType.handshakeInit, MessageType.handshakeResp,
    MessageType.cookieReply]

instance (packet : Bytes) : Decidable (AnnouncesHandshake packet) :=
  inferInstanceAs (Decidable (messageTypeOf packet ∈ _))

theorem messageTypeOf_append {packetType : MessageType} (h : packetType < 256 ^ 4) (rest : Bytes) :
    messageTypeOf (toLe 4 packetType ++ rest) = packetType := by
  have htag := length_toLe 4 packetType
  rw [messageTypeOf, slice_append_left htag.ge, slice_self htag.symm, ofLe_toLe h]

theorem messageTypeOf_datagram (s : Session) {packetType : MessageType} (src : Bytes)
    (h : packetType < 256 ^ 4) : messageTypeOf (s.datagram K packetType src) = packetType := by
  rw [messageTypeOf, Session.slice_datagram, ofLe_toLe h]

def Carries (K : Crypto) (used : Set (Bytes × ℕ)) (P : MessageType → Bytes → Prop)
    (packet : Bytes) : Prop :=
  ∃ (s : Session) (packetType : MessageType) (src : Bytes), P packetType src ∧
    (s.sendingKey, s.sendingKeyCounter) ∈ used ∧ s.sendingKeyCounter < rejectAfterMessages ∧
      packet = s.datagram K packetType src

theorem Carries.mono {used used' : Set (Bytes × ℕ)} {P P' : MessageType → Bytes → Prop}
    {packet : Bytes} (h : Carries K used P packet) (hused : used ⊆ used')
    (hP : ∀ p d, P p d → P' p d) : Carries K used' P' packet := by
  obtain ⟨s, packetType, src, hsrc, hkey, hcounter, hpacket⟩ := h
  exact ⟨s, packetType, src, hP _ _ hsrc, hused hkey, hcounter, hpacket⟩

namespace Handshake

theorem formatHandshakeInitiation_type {h h' : Handshake K} {dstLen : ℕ} {stamper : TimeStamper}
    {w w' : World K N BYTES} {packet : Bytes}
    (call : h.formatHandshakeInitiation dstLen stamper w = .ok (.ok packet, h', w')) :
    AnnouncesHandshake packet := by
  rw [formatHandshakeInitiation] at call
  split at call
  · cases call
  · obtain ⟨⟨timestamp, w₁⟩, -, call⟩ := bind_ok_iff.mp call
    cases call
    simp only [List.append_assoc]
    rw [AnnouncesHandshake, messageTypeOf_append (by decide)]
    exact List.mem_cons_self

theorem receiveHandshakeInitialization_type {h h' : Handshake K} {p : HandshakeInit} {dstLen : ℕ}
    {w w' : World K N BYTES} {packet : Bytes} {s : Session}
    (call : h.receiveHandshakeInitialization p dstLen w = .ok (.ok (packet, s), h', w')) :
    AnnouncesHandshake packet := by
  obtain ⟨timestamp, hash, chainingKey, -, -, call⟩ := receiveHandshakeInitialization_format call
  rw [formatHandshakeResponse] at call
  split at call
  · cases call
  · cases call
    simp only [List.append_assoc]
    rw [AnnouncesHandshake, messageTypeOf_append (by decide)]
    decide

end Handshake

theorem World.sealPacket_datagram {w w' : World K N BYTES} {s s' : Session}
    {packetType : MessageType} {src packet : Bytes} {dstLen : ℕ}
    (call : w.sealPacket s packetType src dstLen = .ok (some packet, s', w')) :
    packet = s.datagram K packetType src ∧ s.sendingKeyCounter < rejectAfterMessages ∧
      32 + Session.paddedLen src.length ≤ dstLen ∧
      (s.sendingKey, s.sendingKeyCounter) ∈ w'.sealed := by
  obtain ⟨⟨written, s₁⟩, hformat, call⟩ := bind_ok_iff.mp call
  cases written with
  | none => cases call
  | some written =>
    cases call
    obtain ⟨hpacket, -, hcounter, hroom⟩ := Session.formatPacketDataWithType_some hformat
    exact ⟨hpacket, hcounter, hroom, List.mem_cons_self⟩

namespace Tunn

variable {t t' : Tunn K} {w w' : World K N BYTES} {P P' : MessageType → Bytes → Prop}
  {items : List (ℕ × QueuedPacket)} {packetType : MessageType} {src packet : Bytes} {dstLen : ℕ}
  {r : TunnResult}

structure Handshaken (t : Tunn K) (packet : Bytes) : Prop where
  announces : AnnouncesHandshake packet
  length_le : t.handshake.params.staticPublic.length = 32 → packet.length ≤ handshakeInitSz

theorem Handshaken.congr (h : Handshaken t' packet)
    (hparams : t'.handshake.params = t.handshake.params) : Handshaken t packet :=
  ⟨h.announces, fun hlength => h.length_le (hparams ▸ hlength)⟩

def Writes (t : Tunn K) (w : World K N BYTES) (P : MessageType → Bytes → Prop)
    (r : TunnResult) : Prop :=
  ∀ packet, r = .writeToNetwork packet →
    t.Handshaken packet ∨ Carries K {x | x ∈ w.sealed} P packet

theorem sealWithCurrent_datagram
    (call : t.sealWithCurrent packetType src dstLen w = .ok (some packet, t', w')) :
    ∃ s, t.currentSession = some s ∧ packet = s.datagram K packetType src ∧
      s.sendingKeyCounter < rejectAfterMessages ∧ 32 + Session.paddedLen src.length ≤ dstLen ∧
      (s.sendingKey, s.sendingKeyCounter) ∈ w'.sealed := by
  rw [sealWithCurrent] at call
  split at call
  · cases call
  · rename_i s hs
    obtain ⟨⟨written, s', w₁⟩, hseal, call⟩ := bind_ok_iff.mp call
    cases call
    exact ⟨s, hs, World.sealPacket_datagram hseal⟩

theorem formatHandshakeInitiation_handshaken {force : Bool}
    (call : t.formatHandshakeInitiation dstLen force w = .ok (.writeToNetwork packet, t', w')) :
    t.Handshaken packet := by
  rw [formatHandshakeInitiation] at call
  split at call
  · cases call
  obtain ⟨-, hhandshake, -⟩ := clearTimersIfExpired_spec t w
  dsimp only at call
  obtain ⟨⟨written, h, w₁⟩, hformat, call⟩ := bind_ok_iff.mp call
  cases written with
  | error e => cases call
  | ok written =>
    cases call
    refine ⟨Handshake.formatHandshakeInitiation_type hformat, fun hlength => ?_⟩
    rw [← hhandshake] at hlength
    exact (Handshake.formatHandshakeInitiation_length hlength hformat).le

theorem encapsulateWithType_writes
    (call : t.encapsulateWithType packetType src dstLen w = .ok (r, t', w')) :
    Writes t w' (fun p d => p = packetType ∧ d = src) r := by
  rintro packet rfl
  obtain ⟨⟨written, t₁, w₁⟩, hseal, call⟩ := bind_ok_iff.mp call
  cases written with
  | some written =>
    cases call
    obtain ⟨s, -, hpacket, hcounter, -, hkey⟩ := sealWithCurrent_datagram hseal
    exact .inr ⟨s, packetType, src, ⟨rfl, rfl⟩, hkey, hcounter, hpacket⟩
  | none =>
    obtain ⟨⟨t₂, w₂⟩, hqueue, hrest⟩ := bind_ok_iff.mp call
    rcases sealWithCurrent_ok hseal with ⟨-, rfl, rfl, -⟩ | ⟨packet, s, hr, -⟩
    · refine .inl ((formatHandshakeInitiation_handshaken hrest).congr ?_)
      rw [(queuePacket_maySend hqueue).2]
    · cases hr

theorem flushQueuedPacket_datagram (hp : w.pool.WF)
    (hholds : Holds w.pool.view t.packetQueue items)
    (call : t.flushQueuedPacket dstLen w = .ok (.writeToNetwork packet, t', w')) :
    ∃ x v rest s, items = (x, v) :: rest ∧ t.currentSession = some s ∧
      packet = s.datagram K v.packetType v.data ∧ s.sendingKeyCounter < rejectAfterMessages ∧
      32 + Session.paddedLen v.data.length ≤ dstLen ∧
      (s.sendingKey, s.sendingKeyCounter) ∈ w'.sealed := by
  cases items with
  | nil =>
    rw [flushQueuedPacket, dequeuePacket, PacketQueue.dequeue_nil hholds] at call
    cases call
  | cons y rest =>
    obtain ⟨x, v⟩ := y
    obtain ⟨q₁, pool₁, hdequeue, hwf₁, -, hview₁⟩ := PacketQueue.dequeue_spec hp hholds
    have hx₁ : pool₁.view x = some ⟨none, v⟩ := by rw [hview₁, Function.update_self]
    have hget := PacketPool.get_spec hwf₁ hx₁
    simp only [flushQueuedPacket, dequeuePacket, hdequeue, hget, ok_bind, pure_eq_ok] at call
    obtain ⟨⟨written, t₂, w₂⟩, hseal, call⟩ := bind_ok_iff.mp call
    cases written with
    | none =>
      obtain ⟨⟨t₃, w₃⟩, -, call⟩ := bind_ok_iff.mp call
      cases call
    | some written =>
      obtain ⟨pool, -, call⟩ := bind_ok_iff.mp call
      cases call
      obtain ⟨s, hs, hpacket, hcounter, hroom, hkey⟩ := sealWithCurrent_datagram hseal
      exact ⟨x, v, rest, s, rfl, hs, hpacket, hcounter, hroom, hkey⟩

theorem flushQueuedPacket_writes (hp : w.pool.WF)
    (hholds : Holds w.pool.view t.packetQueue items)
    (hitems : ∀ v ∈ items.map Prod.snd, P v.packetType v.data)
    (call : t.flushQueuedPacket dstLen w = .ok (r, t', w')) : Writes t w' P r := by
  rintro packet rfl
  obtain ⟨x, v, rest, s, rfl, -, hpacket, hcounter, -, hkey⟩ :=
    flushQueuedPacket_datagram hp hholds call
  exact .inr ⟨s, v.packetType, v.data, hitems v (by simp), hkey, hcounter, hpacket⟩

theorem clearOldCookie_params {now : ℕ} (call : t.clearOldCookie now = .ok t') :
    t'.handshake.params = t.handshake.params := by
  obtain ⟨writeCookie, rfl⟩ := clearOldCookie_ok call
  rfl

theorem updateTimers_writes (call : t.updateTimers dstLen w = .ok (r, t', w')) :
    Writes t w' (fun p d => p = MessageType.data ∧ d = []) r := by
  obtain ⟨t₁, hexpire, haction⟩ := updateTimers_cases call
  have hparams₁ : t₁.handshake.params = t.handshake.params := by rw [updateSessionTimers_ok hexpire]
  rintro packet rfl
  cases haction with
  | giveUp cookie call =>
    obtain ⟨⟨t₂, w₂⟩, -, call⟩ := bind_ok_iff.mp call
    cases call
  | retry cookie call =>
    have hparams₂ := (clearOldCookie_params cookie).trans hparams₁
    exact .inl ((formatHandshakeInitiation_handshaken call).congr hparams₂)
  | rekey cookie due call =>
    have hparams₂ := (clearOldCookie_params cookie).trans hparams₁
    exact .inl ((formatHandshakeInitiation_handshaken call).congr hparams₂)
  | keepalive cookie due call =>
    have hparams₂ := (clearOldCookie_params cookie).trans hparams₁
    exact (encapsulateWithType_writes call packet rfl).imp_left
      fun hhandshaken => hhandshaken.congr hparams₂

theorem handleVerifiedPacket_writes {p : Packet}
    (call : t.handleVerifiedPacket p dstLen w = .ok (r, t', w')) :
    Writes t w' (fun p d => p = MessageType.data ∧ d = []) r := by
  rintro packet rfl
  cases handleVerifiedPacket_cases call with
  | respond hreceive =>
    have hlength := Handshake.receiveHandshakeInitialization_length hreceive
    exact .inl ⟨Handshake.receiveHandshakeInitialization_type hreceive,
      fun _ => hlength.le.trans (by decide)⟩
  | @conclude _ _ s _ _ _ _ hreceive hseal =>
    obtain ⟨hpacket, hcounter, -, hkey⟩ := World.sealPacket_datagram hseal
    exact .inr ⟨s, MessageType.data, [], ⟨rfl, rfl⟩, hkey, hcounter, hpacket⟩
  | receive hdecrypt hvalid =>
    exact absurd (congrArg Prod.fst hvalid) (validateDecapsulatedPacket_ne _ _ packet)

end Tunn

end Tendrilix.Noise
