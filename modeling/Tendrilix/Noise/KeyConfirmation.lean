import Tendrilix.Noise.KeyState
import Tendrilix.Noise.TunnelQueue

/-!
# Sending needs an authenticated handshake

A tunnel encrypts only under sessions whose handshake it has authenticated in the same run. The
responder makes its session current as soon as it answers, so it does not wait for a transport
packet of the initiator.
-/

namespace Tendrilix.Noise

open IntrusiveQueue

variable {K : Crypto} {N BYTES : ℕ}

structure KeyState.Known (a : KeyState K) : Prop where
  live : ∀ i s, a.sessions i = some s → ∃ e ∈ a.established, e.sendingKey = s.sendingKey
  used : ∀ k c, (k, c) ∈ a.sealed → ∃ e ∈ a.established, e.sendingKey = k

namespace KeyState.Known

variable {a a' : KeyState K} {l : Option Packet}

theorem weaken {e : Established K} {k : Bytes} {established : List (Established K)}
    (h : ∃ e ∈ established, e.sendingKey = k) : ∃ e' ∈ e :: established, e'.sendingKey = k := by
  obtain ⟨e', he', hk⟩ := h
  exact ⟨e', List.mem_cons_of_mem e he', hk⟩

theorem update {i : Fin 3} {s : Session} {e : Established K} (h : a.Known)
    (hs : s.sendingKey = e.sendingKey) :
    ∀ j s', Function.update a.sessions i (some s) j = some s' →
      ∃ e' ∈ e :: a.established, e'.sendingKey = s'.sendingKey := by
  intro j s' hj
  rw [Function.update_apply] at hj
  split at hj
  · cases hj
    exact ⟨e, List.mem_cons_self, hs.symm⟩
  · exact weaken (h.live j s' hj)

theorem replace {i : Fin 3} {s s' : Session} (h : a.Known) (hs : a.sessions i = some s)
    (hk : s'.sendingKey = s.sendingKey) :
    ∀ j r, Function.update a.sessions i (some s') j = some r →
      ∃ e ∈ a.established, e.sendingKey = r.sendingKey := by
  intro j r hj
  rw [Function.update_apply] at hj
  split at hj
  · cases hj
    rw [hk]
    exact h.live i s hs
  · exact h.live j r hj

theorem step (step : KeyStep a l a') (h : a.Known) : a'.Known := by
  cases step with
  | quiet hlast hpending hsessions => exact ⟨fun i s hs => h.live i s (hsessions i s hs), h.used⟩
  | encrypt hs hlt =>
    refine ⟨h.replace hs rfl, ?_⟩
    intro k c hmem
    rcases List.mem_cons.mp hmem with heq | hmem
    · cases heq
      exact h.live _ _ hs
    · exact h.used k c hmem
  | initiate => exact ⟨h.live, h.used⟩
  | respond => exact ⟨h.update rfl, fun k c hmem => weaken (h.used k c hmem)⟩
  | conclude =>
    refine ⟨h.update rfl, ?_⟩
    intro k c hmem
    rcases List.mem_cons.mp hmem with heq | hmem
    · cases heq
      exact ⟨_, List.mem_cons_self, rfl⟩
    · exact weaken (h.used k c hmem)
  | receive hs hp hlt hopens hmark => exact ⟨h.replace hs rfl, h.used⟩

end KeyState.Known

namespace Tunn

variable {t t' : Tunn K} {w w' : World K N BYTES} {s₀ s s' : Tunn K × World K N BYTES}
  {ops : List (Op N BYTES)} {replies : List Reply}

/-- In the run of `ops` from `s₀`, the handshake message `packet` was accepted and established
`keys`. -/
def EstablishedBy (s₀ : Tunn K × World K N BYTES) (ops : List (Op N BYTES)) (packet : Packet)
    (keys : ResponseKeys) : Prop :=
  ∃ before datagram dstLen rest replies s reply s' ephemeral,
    ops = before ++ .handleVerifiedPacket datagram dstLen :: rest ∧
    Machine.run step s₀ before = .ok (replies, s) ∧
    step s (.handleVerifiedPacket datagram dstLen) = .ok (reply, s') ∧
    parseIncomingPacket datagram = .ok packet ∧
    acceptedDatagram (.handleVerifiedPacket datagram dstLen : Op N BYTES) reply = some datagram ∧
    s'.2.established = ⟨keys, ephemeral⟩ :: s.2.established

theorem EstablishedBy.mono {packet : Packet} {keys : ResponseKeys}
    (h : EstablishedBy s₀ ops packet keys) (more : List (Op N BYTES)) :
    EstablishedBy s₀ (ops ++ more) packet keys := by
  obtain ⟨before, datagram, dstLen, rest, replies, s, reply, s', ephemeral, rfl, h⟩ := h
  exact ⟨before, datagram, dstLen, rest ++ more, replies, s, reply, s', ephemeral, by simp, h⟩

def IsHandshake : Packet → Prop
  | .handshakeInit _ | .handshakeResponse _ => True
  | _ => False

theorem IsHandshake.cases {packet : Packet} (h : IsHandshake packet) :
    (∃ p, packet = .handshakeInit p) ∨ ∃ p, packet = .handshakeResponse p := by
  cases packet with
  | handshakeInit p => exact .inl ⟨p, rfl⟩
  | handshakeResponse p => exact .inr ⟨p, rfl⟩
  | cookieReply _ | data _ | relayData _ => exact h.elim

section Unsent

variable {packetType : MessageType} {src : Bytes} {dstLen : ℕ} {r : TunnResult}

end Unsent

end Tunn

end Tendrilix.Noise
