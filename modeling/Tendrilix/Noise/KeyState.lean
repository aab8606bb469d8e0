import Tendrilix.Noise.CurrentSession

/-!
# The life of keys

What a run does with keys, without times, indexes and queues: ephemeral keys are drawn, wait for
their response, and become the keys of a session. `KeyStep` says what one effect can do to them.
-/

namespace Tendrilix.Noise

variable {K : Crypto} {N BYTES : ℕ}

structure KeyState (K : Crypto) where
  params : NoiseParams K
  lastHandshakeTimestamp : Tai64N
  pending : List (HandshakeInitSentState K)
  sessions : Fin 3 → Option Session
  secrets : ℕ → K.Secret
  draws : ℕ
  sealed : List (Bytes × ℕ)
  established : List (Established K)

namespace Handshake

def pending (h : Handshake K) : List (HandshakeInitSentState K) :=
  h.state.initSent?.toList ++ h.previous.initSent?.toList

theorem pending_of_state {h : Handshake K} {s : HandshakeInitSentState K}
    (hs : h.state = .initSent s) : h.pending = s :: h.previous.initSent?.toList := by
  rw [pending, hs]
  rfl

theorem consume_pending {h : Handshake K} {receiverIdx : ℕ} {s : HandshakeInitSentState K}
    (hs : h.expected receiverIdx = some s) :
    h.pending.Perm (s :: (h.consume receiverIdx).pending) := by
  obtain ⟨-, ⟨hstate, hconsume⟩ | ⟨hprevious, hconsume⟩⟩ := expected_eq_some hs
  · rw [hconsume, pending_of_state hstate]
    rfl
  · rw [hconsume, pending, hprevious]
    change (h.state.initSent?.toList ++ [s]).Perm (s :: (h.state.initSent?.toList ++ []))
    rw [List.append_nil]
    exact List.perm_append_singleton s _

end Handshake

def Tunn.keyState (t : Tunn K) (w : World K N BYTES) : KeyState K where
  params := t.handshake.params
  lastHandshakeTimestamp := t.handshake.lastHandshakeTimestamp
  pending := t.handshake.pending
  sessions := t.sessions
  secrets := w.secrets
  draws := w.draws
  sealed := w.sealed
  established := w.established

theorem Tunn.keyState_eq {t : Tunn K} {h : Handshake K} {sessions : Fin 3 → Option Session}
    (hhandshake : t.handshake = h) (hsessions : t.sessions = sessions) (w : World K N BYTES) :
    t.keyState w =
      { params := h.params
        lastHandshakeTimestamp := h.lastHandshakeTimestamp
        pending := h.pending
        sessions := sessions
        secrets := w.secrets
        draws := w.draws
        sealed := w.sealed
        established := w.established } := by
  subst hhandshake hsessions
  rfl

inductive KeyStep : KeyState K → Option Packet → KeyState K → Prop
  | quiet {a : KeyState K} {last : Tai64N} {pending : List (HandshakeInitSentState K)}
      {sessions : Fin 3 → Option Session}
      (hlast : last = a.lastHandshakeTimestamp ∨ last.after a.lastHandshakeTimestamp = true)
      (hpending : pending.Sublist a.pending)
      (hsessions : ∀ i s, sessions i = some s → a.sessions i = some s) :
      KeyStep a none
        { a with lastHandshakeTimestamp := last, pending := pending, sessions := sessions }
  | encrypt {a : KeyState K} {i : Fin 3} {s : Session} (hs : a.sessions i = some s)
      (hlt : s.sendingKeyCounter < rejectAfterMessages) :
      KeyStep a none
        { a with
          sessions := Function.update a.sessions i
            (some { s with sendingKeyCounter := s.sendingKeyCounter + 1 })
          sealed := (s.sendingKey, s.sendingKeyCounter) :: a.sealed }
  | initiate {a : KeyState K} {sent : HandshakeInitSentState K}
      {pending : List (HandshakeInitSentState K)} (hpending : pending.Sublist a.pending)
      (hdrawn : sent.ephemeralPrivate = a.secrets a.draws) :
      KeyStep a none { a with pending := sent :: pending, draws := a.draws + 1 }
  | respond {a : KeyState K} {p : HandshakeInit} {timestamp : Tai64N} {hash chainingKey : Bytes}
      {keys : ResponseKeys} {pending : List (HandshakeInitSentState K)} {localIndex : ℕ}
      (hopen : a.params.openInitiation p = .ok (.ok (timestamp, hash, chainingKey)))
      (hafter : timestamp.after a.lastHandshakeTimestamp = true)
      (hpending : pending.Sublist a.pending) :
      KeyStep a (some (.handshakeInit p))
        { a with
          lastHandshakeTimestamp := timestamp
          pending := pending
          sessions := Function.update a.sessions (slotOf localIndex)
            (some (.new localIndex p.senderIdx keys.receivingKey keys.sendingKey))
          draws := a.draws + 1
          established := ⟨keys, a.secrets a.draws⟩ :: a.established }
  | conclude {a : KeyState K} {p : HandshakeResponse} {sent : HandshakeInitSentState K}
      {pending : List (HandshakeInitSentState K)} {keys : ResponseKeys} {localIndex : ℕ}
      (hpending : a.pending.Perm (sent :: pending))
      (hopen : a.params.openResponse sent p = .ok (.ok keys)) :
      KeyStep a (some (.handshakeResponse p))
        { a with
          pending := pending
          sessions := Function.update a.sessions (slotOf localIndex)
            (some { Session.new localIndex p.senderIdx keys.receivingKey keys.sendingKey with
              sendingKeyCounter := 1 })
          sealed := (keys.sendingKey, 0) :: a.sealed
          established := ⟨keys, sent.ephemeralPrivate⟩ :: a.established }
  | receive {a : KeyState K} {p : Data} {packet : Packet} {i : Fin 3} {s : Session}
      {v : ReceivingKeyCounterValidator} {receiveCnt : ℕ} (hs : a.sessions i = some s)
      (hp : packet = .data p ∨ packet = .relayData p) (hlt : p.counter < rejectAfterMessages)
      (hopens : p.Opens K s.receivingKey)
      (hmark : s.receivingKeyCounter.markDidReceive p.counter = .ok (.ok (), v)) :
      KeyStep a (some packet)
        { a with
          sessions := Function.update a.sessions i
            (some { s with receivingKeyCounter := { v with receiveCnt := receiveCnt } }) }

theorem KeyStep.stay (a : KeyState K) : KeyStep a none a :=
  .quiet (.inl rfl) (.refl _) fun _ _ => id

variable {t t' : Tunn K} {w w' : World K N BYTES}

theorem Effect.keyStep {l : Option Packet} (effect : Effect t w l t' w') :
    KeyStep (t.keyState w) l (t'.keyState w') := by
  cases effect with
  | timers same => exact .stay _
  | count => exact .stay _
  | read => exact .stay _
  | observe => exact .stay _
  | clearTimers => exact .stay _
  | expireSessions _ call =>
    rw [Tunn.updateSessionTimers_ok call]
    refine .quiet (.inl rfl) (.refl _) fun i s hs => ?_
    dsimp only at hs
    split at hs
    · cases hs
    · exact hs
  | queue => exact .stay _
  | encrypt call =>
    rcases Tunn.sealWithCurrent_ok call with ⟨-, rfl, rfl, -⟩ | ⟨packet, s, -, hs, hlt, rfl, rfl⟩
    · exact .stay _
    · exact .encrypt hs hlt
  | cookies => exact .stay _
  | expireHandshake => exact .quiet (.inl rfl) (List.nil_sublist _) fun _ _ => id
  | initiate call =>
    obtain ⟨sent, cookies, -, hdrawn, rfl, rfl⟩ := Handshake.formatHandshakeInitiation_ok call
    exact .initiate (List.sublist_append_left _ _) hdrawn
  | refuse call =>
    obtain ⟨rfl, rfl | ⟨timestamp, hash, chainingKey, -, hafter, rfl⟩⟩ :=
      Handshake.receiveHandshakeInitialization_error call
    · exact .stay _
    · exact .quiet (.inr hafter) (List.sublist_append_left _ _) fun _ _ => id
  | respond call =>
    obtain ⟨timestamp, hash, chainingKey, keys, cookies, hopen, hafter, rfl, rfl, rfl⟩ :=
      Handshake.receiveHandshakeInitialization_ok call
    rw [Tunn.keyState_eq (Tunn.installResponder_installed _ _).handshake_eq
      (Tunn.installResponder_installed _ _).sessions_eq]
    exact .respond hopen hafter (List.sublist_append_left _ _)
  | conclude call sent =>
    obtain ⟨state, keys, hexpected, hopen, rfl, ⟨rtt, rfl⟩, rfl⟩ :=
      Handshake.receiveHandshakeResponse_ok call
    rcases World.sealPacket_ok sent with ⟨hr, -⟩ | ⟨packet, -, -, rfl, rfl⟩
    · exact nomatch hr
    · rw [Tunn.keyState_eq (Tunn.installInitiator_installed _ _).handshake_eq
        (Tunn.installInitiator_installed _ _).sessions_eq]
      dsimp only
      rw [Handshake.consume_params, Handshake.consume_lastHandshakeTimestamp]
      exact .conclude (Handshake.consume_pending (h := { t.handshake with lastRtt := rtt }) hexpected) hopen
  | reject _ call =>
    rw [Tunn.decryptRawData_error call]
    exact .stay _
  | receive _ hp call =>
    obtain ⟨s, s', hs, hreceive, rfl⟩ := Tunn.decryptRawData_ok call
    obtain ⟨-, hlt, hopens, v, cnt, hmark, rfl⟩ := Session.receivePacketData_ok hreceive
    rw [Tunn.keyState_eq (t := Tunn.countReceived (Tunn.timerTick _ _)) (Tunn.setCurrentSession_handshake _ _)
      (Tunn.setCurrentSession_sessions _ _)]
    exact .receive hs hp hlt hopens hmark

end Tendrilix.Noise
