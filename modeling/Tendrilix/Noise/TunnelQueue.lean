import Tendrilix.Noise.QueueCalls

/-!
# What waits in a tunnel's queue

For every call on a tunnel: its queue loses some packets, and those that enter it are the ones that
the call was given to send. The cells of other tunnels stay as they are.
-/

namespace Tendrilix.Noise

open IntrusiveQueue Bytes

variable {K : Crypto} {N BYTES : ℕ}

namespace Tunn

variable {t t' t'' : Tunn K} {w w' w'' : World K N BYTES} {P P' : MessageType → Bytes → Prop}
  {packetType : MessageType} {src : Bytes} {dstLen : ℕ} {r : TunnResult}

def Queues (P : MessageType → Bytes → Prop) (t : Tunn K) (w : World K N BYTES) (t' : Tunn K)
    (w' : World K N BYTES) : Prop :=
  ∀ items, w.pool.WF → Holds w.pool.view t.packetQueue items → items.length ≤ maxPendingPackets →
    ∃ items', QueueMoved t w items t' w' items' ∧ items'.length ≤ maxPendingPackets ∧
      ∀ v ∈ items'.map Prod.snd, v ∈ items.map Prod.snd ∨ P v.packetType v.data

theorem SameQueue.queues (h : SameQueue t w t' w') (P : MessageType → Bytes → Prop) :
    Queues P t w t' w' :=
  fun items hp hholds hlen => ⟨items, h.moved hp hholds, hlen, fun _ hv => .inl hv⟩

theorem Queues.mono (h : Queues P t w t' w') (hP : ∀ p d, P p d → P' p d) :
    Queues P' t w t' w' := by
  intro items hp hholds hlen
  obtain ⟨items', hmoved, hlen', hknown⟩ := h items hp hholds hlen
  exact ⟨items', hmoved, hlen', fun v hv => (hknown v hv).imp_right (hP _ _)⟩

theorem Queues.trans (h : Queues P t w t' w') (h' : Queues P t' w' t'' w'') :
    Queues P t w t'' w'' := by
  intro items hp hholds hlen
  obtain ⟨items', hmoved, hlen', hknown⟩ := h items hp hholds hlen
  obtain ⟨items'', hmoved', hlen'', hknown'⟩ := h' items' hmoved.wf hmoved.holds hlen'
  refine ⟨items'', ⟨hmoved'.wf, hmoved'.holds, hmoved.moves.trans hmoved'.moves,
    hmoved'.clock_eq.trans hmoved.clock_eq, hmoved.reads_le.trans hmoved'.reads_le⟩, hlen'', ?_⟩
  intro v hv
  rcases hknown' v hv with hold | hnew
  · exact hknown v hold
  · exact .inr hnew

/-! ### Calls that leave the queue alone -/

theorem sealWithCurrent_sameQueue {written : Option Bytes}
    (call : t.sealWithCurrent packetType src dstLen w = .ok (written, t', w')) :
    SameQueue t w t' w' := by
  rcases sealWithCurrent_ok call with ⟨-, rfl, rfl, -⟩ | ⟨packet, s, -, -, -, rfl, rfl⟩
  · exact .refl _ _
  · exact ⟨rfl, rfl, rfl, le_rfl⟩

theorem formatHandshakeInitiation_sameQueue {force : Bool}
    (call : t.formatHandshakeInitiation dstLen force w = .ok (r, t', w')) :
    SameQueue t w t' w' := by
  rw [formatHandshakeInitiation] at call
  split at call
  · cases call
    exact .refl _ _
  obtain ⟨hclear, -⟩ := clearTimersIfExpired_spec t w
  revert call hclear
  generalize t.clearTimersIfExpired w = cleared
  obtain ⟨t₁, w₁⟩ := cleared
  intro call hclear
  obtain ⟨⟨packet, h, w₂⟩, hformat, call⟩ := bind_ok_iff.mp call
  cases packet with
  | error e =>
    cases call
    obtain ⟨rfl, rfl⟩ := Handshake.formatHandshakeInitiation_error hformat
    exact hclear.trans ⟨rfl, rfl, rfl, le_rfl⟩
  | ok packet =>
    obtain ⟨sent, cookies, -, -, rfl, rfl⟩ := Handshake.formatHandshakeInitiation_ok hformat
    cases call
    refine hclear.trans ⟨?_, rfl, rfl, Nat.le_add_right _ _⟩
    split
    · rfl
    · rfl

theorem decryptRawData_packetQueue {p : Data} {opened : Outcome Bytes}
    (call : t.decryptRawData p dstLen = .ok (opened, t')) : t'.packetQueue = t.packetQueue := by
  cases opened with
  | error e => rw [decryptRawData_error call]
  | ok plaintext =>
    obtain ⟨s, s', -, -, rfl⟩ := decryptRawData_ok call
    exact setCurrentSession_packetQueue _ _

theorem validateDecapsulatedPacket_packetQueue (t : Tunn K) (packet : Bytes) :
    (t.validateDecapsulatedPacket packet).2.packetQueue = t.packetQueue := by
  rw [validateDecapsulatedPacket]
  split
  · rfl
  split
  · rfl
  split
  · rfl
  split
  · rfl
  split <;> rfl

theorem handleVerifiedRelayPacket_sameQueue {packet : Packet} {opened : Outcome Bytes}
    (call : t.handleVerifiedRelayPacket packet dstLen = .ok (opened, t')) (w : World K N BYTES) :
    SameQueue t w t' w := by
  cases packet with
  | relayData p => exact ⟨decryptRawData_packetQueue call, rfl, rfl, le_rfl⟩
  | _ =>
    cases call
    exact .refl _ _

theorem handleVerifiedPacket_sameQueue {packet : Packet}
    (call : t.handleVerifiedPacket packet dstLen w = .ok (r, t', w')) : SameQueue t w t' w' := by
  cases handleVerifiedPacket_cases call with
  | refuse hreceive =>
    obtain ⟨rfl, -⟩ := Handshake.receiveHandshakeInitialization_error hreceive
    exact ⟨rfl, rfl, rfl, le_rfl⟩
  | respond hreceive =>
    obtain ⟨timestamp, hash, chainingKey, keys, cookies, -, -, -, -, rfl⟩ :=
      Handshake.receiveHandshakeInitialization_ok hreceive
    exact ⟨setCurrentSession_packetQueue _ _, rfl, rfl, le_rfl⟩
  | misdirected hreceive =>
    obtain ⟨rfl, rfl⟩ := Handshake.receiveHandshakeResponse_error hreceive
    exact ⟨rfl, rfl, rfl, le_rfl⟩
  | conclude hreceive hseal =>
    obtain ⟨state, keys, -, -, -, -, rfl⟩ := Handshake.receiveHandshakeResponse_ok hreceive
    rcases World.sealPacket_ok hseal with ⟨hnone, -⟩ | ⟨packet, -, -, -, rfl⟩
    · cases hnone
    · exact ⟨setCurrentSession_packetQueue _ _, rfl, rfl, Nat.le_succ _⟩
  | refuseCookie | cookie => exact ⟨rfl, rfl, rfl, le_rfl⟩
  | reject hdecrypt => exact ⟨decryptRawData_packetQueue hdecrypt, rfl, rfl, le_rfl⟩
  | receive hdecrypt hvalid =>
    obtain ⟨rfl, rfl⟩ := Prod.ext_iff.mp hvalid
    exact ⟨(validateDecapsulatedPacket_packetQueue _ _).trans (decryptRawData_packetQueue hdecrypt), rfl,
      rfl, le_rfl⟩
  | foreign => exact .refl _ _

/-! ### Calls that move it -/

theorem dropExpiredQueuedPackets_queues {now dropped : ℕ}
    (call : t.dropExpiredQueuedPackets now w = .ok (dropped, t', w')) :
    Queues (fun _ _ => False) t w t' w' := by
  intro items hp hholds hlen
  obtain ⟨n, t₁, w₁, hcall, hmoved, -⟩ := dropExpiredQueuedPackets_spec hp hholds now
  rw [hcall] at call
  cases call
  refine ⟨_, hmoved, (List.length_filter_le _ _).trans hlen, fun v hv => .inl ?_⟩
  obtain ⟨x, hx, rfl⟩ := List.mem_map.mp hv
  exact List.mem_map_of_mem (List.mem_of_mem_filter hx)

theorem clearPacketQueue_queues (call : t.clearPacketQueue w = .ok (t', w')) :
    Queues (fun _ _ => False) t w t' w' := by
  intro items hp hholds hlen
  obtain ⟨t₁, w₁, hcall, hmoved⟩ := clearPacketQueue_spec hp hholds
  rw [hcall] at call
  cases call
  exact ⟨[], hmoved, Nat.zero_le _, nofun⟩

theorem queuePacket_queues (call : t.queuePacket packetType src w = .ok (t', w')) :
    Queues (fun p d => p = packetType ∧ d = src) t w t' w' := by
  intro items hp hholds hlen
  obtain ⟨t₁, w₁, items', hcall, hmoved, hitems⟩ := queuePacket_spec hp hholds packetType src
  rw [hcall] at call
  cases call
  refine ⟨items', hmoved, ?_, fun v hv => ?_⟩
  · rw [← List.length_map Prod.snd, hitems]
    apply Fifo.length_enqueue_le
    rwa [List.length_map]
  · rw [hitems, Fifo.enqueue] at hv
    split at hv
    · exact .inl hv
    split at hv
    · rcases List.mem_append.mp hv with hold | hnew
      · exact .inl (List.mem_of_mem_filter hold)
      · rw [List.mem_singleton.mp hnew]
        exact .inr ⟨rfl, rfl⟩
    · exact .inl (List.mem_of_mem_filter hv)

theorem encapsulateWithType_waits {items : List (ℕ × QueuedPacket)} (hp : w.pool.WF)
    (hholds : Holds w.pool.view t.packetQueue items) (hsend : t.maySend = false)
    (call : t.encapsulateWithType packetType src dstLen w = .ok (r, t', w')) :
    ∃ items', Holds w'.pool.view t'.packetQueue items' ∧
      items'.map Prod.snd = Fifo.enqueue w.now.1 packetType src (t.hasRoom packetType src w)
        (items.map Prod.snd) := by
  obtain ⟨⟨written, t₁, w₁⟩, hseal, hrest⟩ := bind_ok_iff.mp call
  rcases sealWithCurrent_ok hseal with ⟨rfl, rfl, rfl, -⟩ | ⟨packet, s, -, hs, hlt, -, -⟩
  · obtain ⟨t₂, w₂, items', hqueue, hmoved, hitems⟩ := queuePacket_spec hp hholds packetType src
    obtain ⟨⟨t₃, w₃⟩, hqueue', hrest⟩ := bind_ok_iff.mp hrest
    cases hqueue.symm.trans hqueue'
    have hsame := formatHandshakeInitiation_sameQueue hrest
    refine ⟨items', ?_, hitems⟩
    rw [hsame.queue_eq, hsame.pool_eq]
    exact hmoved.holds
  · rw [maySend_eq_true hs hlt] at hsend
    cases hsend

theorem encapsulateWithType_queues
    (call : t.encapsulateWithType packetType src dstLen w = .ok (r, t', w')) :
    Queues (fun p d => p = packetType ∧ d = src) t w t' w' := by
  obtain ⟨⟨written, t₁, w₁⟩, hseal, call⟩ := bind_ok_iff.mp call
  have hsame := sealWithCurrent_sameQueue hseal
  cases written with
  | some packet =>
    cases call
    exact (hsame.trans (tickSent_sameQueue t₁ src _)).queues _
  | none =>
    obtain ⟨⟨t₂, w₂⟩, hqueue, call⟩ := bind_ok_iff.mp call
    exact (hsame.queues _).trans ((queuePacket_queues hqueue).trans
      ((formatHandshakeInitiation_sameQueue call).queues _))

theorem flushQueuedPacket_queues (call : t.flushQueuedPacket dstLen w = .ok (r, t', w')) :
    Queues (fun _ _ => False) t w t' w' := by
  intro items hp hholds hlen
  rcases flushQueuedPacket_spec hp hholds hlen dstLen with
    ⟨r₁, t₁, w₁, hcall, hmoved, -⟩ | ⟨hfault, -⟩
  · rw [hcall] at call
    cases call
    refine ⟨_, hmoved, ?_, fun v hv => .inl ?_⟩
    · split
      · rw [List.length_tail]
        omega
      · exact hlen
    · split at hv
      · rw [List.map_tail] at hv
        exact List.mem_of_mem_tail hv
      · exact hv
  · rw [hfault] at call
    cases call

theorem expire_queues (call : t.expire w = .ok (r, t', w')) :
    Queues (fun _ _ => False) t w t' w' := by
  obtain ⟨⟨t₁, w₁⟩, hclear, call⟩ := bind_ok_iff.mp call
  obtain ⟨⟨t₂, w₂⟩, hqueue, hclear⟩ := bind_ok_iff.mp hclear
  cases hclear
  cases call
  have hexpired : SameQueue t w { t with handshake := t.handshake.setExpired } w :=
    ⟨rfl, rfl, rfl, le_rfl⟩
  have hread : SameQueue t₂ w₂ { t₂ with timers := (t₂.timers.clear w₂).1 }
      (t₂.timers.clear w₂).2 := ⟨rfl, rfl, rfl, Nat.le_succ _⟩
  exact (hexpired.queues _).trans ((clearPacketQueue_queues hqueue).trans (hread.queues _))

theorem clearOldCookie_sameQueue {now : ℕ} (call : t.clearOldCookie now = .ok t')
    (w : World K N BYTES) : SameQueue t w t' w := by
  obtain ⟨writeCookie, rfl⟩ := clearOldCookie_ok call
  exact ⟨rfl, rfl, rfl, le_rfl⟩

theorem updateTimers_queues (call : t.updateTimers dstLen w = .ok (r, t', w')) :
    Queues (fun p d => p = MessageType.data ∧ d = []) t w t' w' := by
  obtain ⟨t₁, hexpire, haction⟩ := updateTimers_cases call
  have hfirst : SameQueue t w t₁ w.now.2 := by
    rw [updateSessionTimers_ok hexpire]
    exact ⟨rfl, rfl, rfl, Nat.le_succ _⟩
  apply (hfirst.queues _).trans
  have hread (t₂ : Tunn K) : SameQueue t₂ w.now.2 t₂ w.now.2.now.2 := ⟨rfl, rfl, rfl, Nat.le_succ _⟩
  have hdue (t₂ : Tunn K) (timers : Timers) :
      SameQueue t₂ w.now.2 { t₂ with timers := timers } w.now.2 := ⟨rfl, rfl, rfl, le_rfl⟩
  cases haction with
  | expired => exact (SameQueue.refl _ _).queues _
  | giveUp cookie call =>
    exact ((clearOldCookie_sameQueue cookie _).queues _).trans ((expire_queues call).mono nofun)
  | retry cookie call =>
    have hsame := (hread _).trans (formatHandshakeInitiation_sameQueue call)
    exact ((clearOldCookie_sameQueue cookie _).trans hsame).queues _
  | wait cookie => exact ((clearOldCookie_sameQueue cookie _).trans (hread _)).queues _
  | rekey cookie due call =>
    have hsame := (hdue _ _).trans (formatHandshakeInitiation_sameQueue call)
    exact ((clearOldCookie_sameQueue cookie _).trans hsame).queues _
  | keepalive cookie due call =>
    apply ((clearOldCookie_sameQueue cookie _).queues _).trans
    exact ((hdue _ _).queues _).trans (encapsulateWithType_queues call)
  | idle cookie due => exact ((clearOldCookie_sameQueue cookie _).trans (hdue _ _)).queues _

end Tunn

end Tendrilix.Noise
