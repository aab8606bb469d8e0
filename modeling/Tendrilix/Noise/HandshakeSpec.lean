import Tendrilix.Noise.Handshake

/-!
# What the handshake calls do

One inversion lemma for each call that can return: which part of the handshake and of the world
it changes, and where the new session comes from.
-/

namespace Tendrilix.Noise

variable {K : Crypto} {N BYTES : ℕ} {h h' : Handshake K} {w w' : World K N BYTES} {dstLen : ℕ}

theorem TimeStamper.stamp_world {stamper : TimeStamper} {timestamp : Bytes}
    (call : stamper.stamp w = .ok (timestamp, w')) : w' = { w with reads := w.reads + 1 } := by
  obtain ⟨stamp, -, call⟩ := bind_ok_iff.mp call
  cases call
  rfl

namespace Handshake

theorem formatHandshakeInitiation_error {stamper : TimeStamper}
    {e : WireGuardError}
    (call : h.formatHandshakeInitiation dstLen stamper w = .ok (.error e, h', w')) :
    h' = h ∧ w' = w := by
  rw [formatHandshakeInitiation] at call
  split at call
  · cases call
    exact ⟨rfl, rfl⟩
  · obtain ⟨⟨stamp, w₂⟩, -, call⟩ := bind_ok_iff.mp call
    cases call

theorem receiveHandshakeResponse_error {p : HandshakeResponse}
    {e : WireGuardError}
    (call : h.receiveHandshakeResponse p w = .ok (.error e, h', w')) : h' = h ∧ w' = w := by
  rw [receiveHandshakeResponse] at call
  split at call
  · cases call
    exact ⟨rfl, rfl⟩
  · obtain ⟨opened, -, call⟩ := bind_ok_iff.mp call
    cases opened with
    | error e =>
      cases call
      exact ⟨rfl, rfl⟩
    | ok nothing => cases call

theorem receiveCookieReply_cookies {p : CookieReply}
    {r : Outcome Unit} (call : h.receiveCookieReply p = .ok (r, h')) :
    ∃ writeCookie, h' = { h with cookies := { h.cookies with writeCookie := writeCookie } } := by
  rw [receiveCookieReply] at call
  split at call
  · cases call
    exact ⟨_, rfl⟩
  split at call
  · cases call
    exact ⟨_, rfl⟩
  split at call
  · cases call
    exact ⟨_, rfl⟩
  dsimp only at call
  split at call
  · cases call
  split at call
  · cases call
    exact ⟨_, rfl⟩
  · cases call
    exact ⟨_, rfl⟩

theorem receiveCookieReply_error {p : CookieReply} {e : WireGuardError}
    (call : h.receiveCookieReply p = .ok (.error e, h')) : h' = h := by
  rw [receiveCookieReply] at call
  split at call
  · cases call
    rfl
  split at call
  · cases call
    rfl
  split at call
  · cases call
    rfl
  dsimp only at call
  split at call
  · cases call
  split at call
  · cases call
    rfl
  · cases call

theorem formatHandshakeInitiation_ok {stamper : TimeStamper} {packet : Bytes}
    (call : h.formatHandshakeInitiation dstLen stamper w = .ok (.ok packet, h', w')) :
    ∃ sent cookies, sent.localIndex = h.nextLocalIndex ∧
      sent.ephemeralPrivate = w.secrets w.draws ∧
      h' = { h with
        nextLocalIndex := nextIndex h.nextLocalIndex
        previous := h.state
        state := .initSent sent
        cookies := cookies } ∧
      w' = { w with reads := w.reads + 2, draws := w.draws + 1 } := by
  rw [formatHandshakeInitiation] at call
  split at call
  · cases call
  · obtain ⟨⟨timestamp, w₁⟩, hstamp, call⟩ := bind_ok_iff.mp call
    have hw := TimeStamper.stamp_world hstamp
    subst hw
    cases call
    exact ⟨_, _, rfl, rfl, rfl, rfl⟩

theorem formatHandshakeInitiation_cookies {stamper : TimeStamper} {packet : Bytes}
    (call : h.formatHandshakeInitiation dstLen stamper w = .ok (.ok packet, h', w')) :
    h'.cookies.index = h.nextLocalIndex := by
  rw [formatHandshakeInitiation] at call
  split at call
  · cases call
  · obtain ⟨⟨timestamp, w₁⟩, -, call⟩ := bind_ok_iff.mp call
    cases call
    rfl

def received (h : Handshake K) (p : HandshakeInit) (timestamp : Tai64N) (hash chainingKey : Bytes) :
    Handshake K :=
  { h with
    lastHandshakeTimestamp := timestamp
    previous := h.state
    state := .initReceived hash chainingKey p.unencryptedEphemeral p.senderIdx }

theorem receiveHandshakeInitialization_cases {p : HandshakeInit} {r : Outcome (Bytes × Session)}
    (call : h.receiveHandshakeInitialization p dstLen w = .ok (r, h', w')) :
    (∃ e, r = .error e ∧ h' = h ∧ w' = w) ∨ ∃ timestamp hash chainingKey,
      h.params.openInitiation p = .ok (.ok (timestamp, hash, chainingKey)) ∧
      timestamp.after h.lastHandshakeTimestamp = true ∧
      (h.received p timestamp hash chainingKey).formatHandshakeResponse dstLen w =
        .ok (r, h', w') := by
  obtain ⟨opened, hopen, call⟩ := bind_ok_iff.mp call
  cases opened with
  | error e =>
    cases call
    exact .inl ⟨e, rfl, rfl, rfl⟩
  | ok opened =>
    obtain ⟨timestamp, hash, chainingKey⟩ := opened
    cases hafter : timestamp.after h.lastHandshakeTimestamp with
    | false =>
      simp only [hafter, Bool.not_false, if_true] at call
      cases call
      exact .inl ⟨_, rfl, rfl, rfl⟩
    | true =>
      simp only [hafter, Bool.not_true, Bool.false_eq_true, if_false] at call
      exact .inr ⟨timestamp, hash, chainingKey, hopen, hafter, call⟩

theorem receiveHandshakeInitialization_error {p : HandshakeInit} {e : WireGuardError}
    (call : h.receiveHandshakeInitialization p dstLen w = .ok (.error e, h', w')) :
    w' = w ∧ (h' = h ∨ ∃ timestamp hash chainingKey, dstLen < handshakeRespSz ∧
      timestamp.after h.lastHandshakeTimestamp = true ∧
      h' = h.received p timestamp hash chainingKey) := by
  rcases receiveHandshakeInitialization_cases call with
    ⟨e, -, hh, hw⟩ | ⟨timestamp, hash, chainingKey, -, hafter, call⟩
  · exact ⟨hw, .inl hh⟩
  rw [formatHandshakeResponse] at call
  split at call
  · rename_i hsmall
    cases call
    exact ⟨rfl, .inr ⟨timestamp, hash, chainingKey, hsmall, hafter, rfl⟩⟩
  · cases call

theorem receiveHandshakeInitialization_format {p : HandshakeInit} {packet : Bytes} {s : Session}
    (call : h.receiveHandshakeInitialization p dstLen w = .ok (.ok (packet, s), h', w')) :
    ∃ timestamp hash chainingKey,
      h.params.openInitiation p = .ok (.ok (timestamp, hash, chainingKey)) ∧
      timestamp.after h.lastHandshakeTimestamp = true ∧
      (h.received p timestamp hash chainingKey).formatHandshakeResponse dstLen w =
        .ok (.ok (packet, s), h', w') := by
  rcases receiveHandshakeInitialization_cases call with ⟨e, he, -⟩ | hformat
  · cases he
  · exact hformat

theorem receiveHandshakeInitialization_ok {p : HandshakeInit} {packet : Bytes} {s : Session}
    (call : h.receiveHandshakeInitialization p dstLen w = .ok (.ok (packet, s), h', w')) :
    ∃ timestamp hash chainingKey keys cookies,
      h.params.openInitiation p = .ok (.ok (timestamp, hash, chainingKey)) ∧
      timestamp.after h.lastHandshakeTimestamp = true ∧
      s = Session.new h.nextLocalIndex p.senderIdx keys.receivingKey keys.sendingKey ∧
      h' = { h with
        nextLocalIndex := nextIndex h.nextLocalIndex
        lastHandshakeTimestamp := timestamp
        previous := h.state
        state := .none
        cookies := cookies } ∧
      w' = { w with
        draws := w.draws + 1
        established := ⟨keys, w.secrets w.draws⟩ :: w.established } := by
  obtain ⟨timestamp, hash, chainingKey, hopen, hafter, call⟩ :=
    receiveHandshakeInitialization_format call
  rw [formatHandshakeResponse] at call
  split at call
  · cases call
  · cases call
    exact ⟨timestamp, hash, chainingKey, _, _, hopen, hafter, rfl, rfl, rfl⟩

theorem receiveHandshakeInitialization_cookies {p : HandshakeInit} {packet : Bytes} {s : Session}
    (call : h.receiveHandshakeInitialization p dstLen w = .ok (.ok (packet, s), h', w')) :
    h'.cookies.index = h.nextLocalIndex := by
  obtain ⟨timestamp, hash, chainingKey, -, -, call⟩ := receiveHandshakeInitialization_format call
  rw [formatHandshakeResponse] at call
  split at call
  · cases call
  · cases call
    rfl

def Pending (h : Handshake K) (s : HandshakeInitSentState K) : Prop :=
  h.state = .initSent s ∨ h.previous = .initSent s

theorem initSent?_eq_some {state : HandshakeState K} {s : HandshakeInitSentState K} :
    state.initSent? = some s ↔ state = .initSent s := by
  cases state with
  | initSent s' => simp [HandshakeState.initSent?]
  | _ => simp [HandshakeState.initSent?]

theorem expected_eq_some {receiverIdx : ℕ} {s : HandshakeInitSentState K}
    (hs : h.expected receiverIdx = some s) :
    s.localIndex = receiverIdx ∧
      (h.state = .initSent s ∧ h.consume receiverIdx = { h with state := .none } ∨
        h.previous = .initSent s ∧ h.consume receiverIdx = { h with previous := .none }) := by
  rw [expected, Option.or_eq_some_iff] at hs
  rcases hs with hcur | ⟨hcur, hprev⟩
  · obtain ⟨hsent, hidx⟩ := Option.filter_eq_some_iff.mp hcur
    have hidx : s.localIndex = receiverIdx := by simpa using hidx
    have hany : h.state.initSent?.any (·.localIndex = receiverIdx) = true := by
      simp [hsent, hidx]
    exact ⟨hidx, .inl ⟨initSent?_eq_some.mp hsent, by rw [consume, if_pos hany]⟩⟩
  · obtain ⟨hsent, hidx⟩ := Option.filter_eq_some_iff.mp hprev
    have hidx : s.localIndex = receiverIdx := by simpa using hidx
    have hany : ¬h.state.initSent?.any (·.localIndex = receiverIdx) = true := by
      intro hany
      obtain ⟨s', hs', hidx'⟩ := (Option.any_eq_true _ _).mp hany
      rw [hs'] at hcur
      simp [Option.filter] at hcur hidx'
      exact hcur hidx'
    exact ⟨hidx, .inr ⟨initSent?_eq_some.mp hsent, by rw [consume, if_neg hany]⟩⟩

theorem receiveHandshakeResponse_ok {p : HandshakeResponse} {s : Session}
    (call : h.receiveHandshakeResponse p w = .ok (.ok s, h', w')) :
    ∃ state keys, h.expected p.receiverIdx = some state ∧
      h.params.openResponse state p = .ok (.ok keys) ∧
      s = Session.new state.localIndex p.senderIdx keys.receivingKey keys.sendingKey ∧
      (∃ rtt, h' = { h with lastRtt := rtt }.consume p.receiverIdx) ∧
      w' = { w with
        reads := w.reads + 1
        established := ⟨keys, state.ephemeralPrivate⟩ :: w.established } := by
  rw [receiveHandshakeResponse] at call
  split at call
  · cases call
  · rename_i state hstate
    obtain ⟨opened, hopen, call⟩ := bind_ok_iff.mp call
    cases opened with
    | error e => cases call
    | ok keys =>
      cases call
      exact ⟨state, keys, hstate, hopen, rfl, ⟨_, rfl⟩, rfl⟩

/-! ### What consuming a state leaves alone -/

@[simp] theorem consume_params (h : Handshake K) (receiverIdx : ℕ) :
    (h.consume receiverIdx).params = h.params := by
  rw [consume]
  split <;> rfl

@[simp] theorem consume_lastHandshakeTimestamp (h : Handshake K) (receiverIdx : ℕ) :
    (h.consume receiverIdx).lastHandshakeTimestamp = h.lastHandshakeTimestamp := by
  rw [consume]
  split <;> rfl

theorem consume_nextLocalIndex (h : Handshake K) (receiverIdx : ℕ) :
    (h.consume receiverIdx).nextLocalIndex = h.nextLocalIndex := by
  rw [consume]
  split <;> rfl

theorem consume_cookies (h : Handshake K) (receiverIdx : ℕ) :
    (h.consume receiverIdx).cookies = h.cookies := by
  rw [consume]
  split <;> rfl

end Handshake

end Tendrilix.Noise
