import Tendrilix.Noise.Run
import Tendrilix.Noise.TunnSpec

/-!
# The handshake yields mirrored sessions

The initiator and the responder follow the same transcript: what one seals the other opens, and the
sending key of either is the receiving key of the other.
-/

namespace Tendrilix.Noise

open Bytes

variable {K : Crypto} {N BYTES : ℕ}

def ResponseKeys.mirror (keys : ResponseKeys) : ResponseKeys where
  responseKey := keys.responseKey
  responseHash := keys.responseHash
  receivingKey := keys.sendingKey
  sendingKey := keys.receivingKey

namespace NoiseParams

variable (a b e f : K.Secret)

def ofPeer (own peer : K.Secret) : NoiseParams K := .new own (K.publicKey own) (K.publicKey peer)

def initiationOf (params : NoiseParams K) (localIndex : ℕ) (timestamp : Bytes) : HandshakeInit where
  senderIdx := localIndex
  unencryptedEphemeral := K.publicKey e
  encryptedStatic := (params.sealInitiation e timestamp).encryptedStatic
  encryptedTimestamp := (params.sealInitiation e timestamp).encryptedTimestamp

theorem length_encryptedStatic (params : NoiseParams K) (timestamp : Bytes) :
    (params.sealInitiation e timestamp).encryptedStatic.length = params.staticPublic.length + 16 :=
  length_aeadChacha20Seal _ _ _ _ _

theorem length_encryptedTimestamp (params : NoiseParams K) (timestamp : Bytes) :
    (params.sealInitiation e timestamp).encryptedTimestamp.length = timestamp.length + 16 :=
  length_aeadChacha20Seal _ _ _ _ _

theorem openInitiation_sealInitiation (hK : K.Lawful) (localIndex : ℕ) {timestamp : Bytes}
    (hlen : timestamp.length = timestampLen) :
    (ofPeer b a).openInitiation ((ofPeer a b).initiationOf e localIndex timestamp) =
      .ok (.ok (Tai64N.parse timestamp, ((ofPeer a b).sealInitiation e timestamp).hash,
        ((ofPeer a b).sealInitiation e timestamp).chainingKey)) := by
  have hpub : keyLen = (K.publicKey a).length := (K.length_publicKey a).symm
  rw [openInitiation]
  simp only [initiationOf, sealInitiation, ofPeer, new, hK.diffieHellman_comm b e,
    hK.diffieHellman_comm b a, hpub, ← hlen, aeadChacha20Open_seal hK, ok_bind, pure_eq_ok, ne_eq,
    not_true_eq_false, if_false]

theorem parseHandshakeAnon_sealInitiation (hK : K.Lawful) (localIndex : ℕ) (timestamp : Bytes) :
    parseHandshakeAnon K b (K.publicKey b) ((ofPeer a b).initiationOf e localIndex timestamp) =
      .ok (.ok (K.publicKey a)) := by
  have hpub : keyLen = (K.publicKey a).length := (K.length_publicKey a).symm
  rw [parseHandshakeAnon]
  simp only [initiationOf, sealInitiation, ofPeer, new, hK.diffieHellman_comm b e, hpub,
    aeadChacha20Open_seal hK]

def responseOf (params : NoiseParams K) (hash chainingKey peerEphemeralPublic : Bytes)
    (localIndex peerIndex : ℕ) : HandshakeResponse where
  senderIdx := localIndex
  receiverIdx := peerIndex
  unencryptedEphemeral := K.publicKey f
  encryptedNothing := (params.sealResponse f hash chainingKey peerEphemeralPublic).1

theorem openResponse_sealResponse (hK : K.Lawful) (state : HandshakeInitSentState K)
    (localIndex peerIndex : ℕ) :
    (ofPeer a b).openResponse state ((ofPeer b a).responseOf f state.hash state.chainingKey
      (K.publicKey state.ephemeralPrivate) localIndex peerIndex) =
      .ok (.ok ((ofPeer b a).sealResponse f state.hash state.chainingKey
        (K.publicKey state.ephemeralPrivate)).2.mirror) := by
  have hopen := fun key hash => aeadChacha20Open_seal hK key 0 [] hash
  rw [List.length_nil] at hopen
  rw [openResponse]
  simp only [responseOf, sealResponse, ofPeer, new,
    hK.diffieHellman_comm state.ephemeralPrivate f, hK.diffieHellman_comm a f, hopen, ok_bind,
    pure_eq_ok, ResponseKeys.mirror]

end NoiseParams

open NoiseParams

theorem TimeStamper.length_stampAt {stamper : TimeStamper} {now : ℕ} {timestamp : Bytes}
    (h : stamper.stampAt now = .ok timestamp) : timestamp.length = timestampLen := by
  obtain ⟨start, -, h⟩ := bind_ok_iff.mp h
  obtain ⟨seconds, -, h⟩ := bind_ok_iff.mp h
  cases h
  rw [List.length_append, length_toBe, length_toBe]
  rfl

namespace Handshake

variable {h : Handshake K} {w : World K N BYTES} {dstLen : ℕ}

theorem appendMac1AndMac2_fst (h : Handshake K) (localIndex : ℕ) (msg : Bytes) :
    ∃ mac1 mac2, mac1.length = 16 ∧ mac2.length = 16 ∧
      (h.appendMac1AndMac2 localIndex msg).1 = msg ++ mac1 ++ mac2 := by
  refine ⟨_, _, K.length_mac16 _ _, ?_, rfl⟩
  split
  · exact K.length_mac16 _ _
  · exact length_zeros 16

theorem formatHandshakeInitiation_eq {a b : K.Secret} {stamper : TimeStamper} {timestamp : Bytes}
    (hparams : h.params = .ofPeer a b) (hidx : h.nextLocalIndex < 2 ^ 32)
    (hdst : handshakeInitSz ≤ dstLen) (hstamp : stamper.stampAt (w.clock w.reads) = .ok timestamp) :
    ∃ packet h' w' sent,
      h.formatHandshakeInitiation dstLen stamper w = .ok (.ok packet, h', w') ∧
      h'.state = .initSent sent ∧ h'.params = h.params ∧
      h'.nextLocalIndex = nextIndex sent.localIndex ∧ sent.localIndex = h.nextLocalIndex ∧
      sent.hash = ((ofPeer a b).sealInitiation sent.ephemeralPrivate timestamp).hash ∧
      sent.chainingKey = ((ofPeer a b).sealInitiation sent.ephemeralPrivate timestamp).chainingKey ∧
      sent.timeSent = w.clock (w.reads + 1) ∧
      parseIncomingPacket packet = .ok (.handshakeInit
        ((ofPeer a b).initiationOf sent.ephemeralPrivate sent.localIndex timestamp)) := by
  let secrets := h.params.sealInitiation (w.secrets w.draws) timestamp
  let sent : HandshakeInitSentState K :=
    { localIndex := h.nextLocalIndex
      hash := secrets.hash
      chainingKey := secrets.chainingKey
      ephemeralPrivate := w.secrets w.draws
      timeSent := w.clock (w.reads + 1) }
  let h₁ := { h with
    nextLocalIndex := nextIndex h.nextLocalIndex
    previous := h.state
    state := .initSent sent }
  let msg := toLe 4 MessageType.handshakeInit ++ toLe 4 h.nextLocalIndex ++
    K.publicKey (w.secrets w.draws) ++ secrets.encryptedStatic ++ secrets.encryptedTimestamp
  have hcall : h.formatHandshakeInitiation dstLen stamper w =
      .ok (.ok (h₁.appendMac1AndMac2 h.nextLocalIndex msg).1,
        (h₁.appendMac1AndMac2 h.nextLocalIndex msg).2,
        { w with reads := w.reads + 2, draws := w.draws + 1 }) := by
    rw [formatHandshakeInitiation, if_neg (Nat.not_lt.mpr hdst)]
    simp only [TimeStamper.stamp, World.drawSecret, World.now, hstamp, ok_bind, pure_eq_ok,
      allocateLocalIndex]
    rfl
  rw [← hparams]
  refine ⟨_, _, _, sent, hcall, rfl, rfl, rfl, rfl, rfl, rfl, rfl, ?_⟩
  have hstatic : secrets.encryptedStatic.length = 48 := by
    rw [length_encryptedStatic, hparams]
    exact congrArg (· + 16) (K.length_publicKey a)
  have htimestamp : secrets.encryptedTimestamp.length = 28 := by
    rw [length_encryptedTimestamp, TimeStamper.length_stampAt hstamp]
    rfl
  obtain ⟨mac1, mac2, hmac1, hmac2, happend⟩ := h₁.appendMac1AndMac2_fst h.nextLocalIndex msg
  rw [happend]
  exact parseIncomingPacket_handshakeInit hidx (K.length_publicKey _)
    hstatic htimestamp hmac1 hmac2

theorem length_encryptedNothing (params : NoiseParams K) (f : K.Secret)
    (hash chainingKey peerEphemeralPublic : Bytes) :
    (params.sealResponse f hash chainingKey peerEphemeralPublic).1.length = 16 :=
  length_aeadChacha20Seal _ _ _ _ _

theorem receiveHandshakeInitialization_eq {p : HandshakeInit} {timestamp : Tai64N}
    {hash chainingKey : Bytes} (hidx : h.nextLocalIndex < 2 ^ 32) (hsender : p.senderIdx < 2 ^ 32)
    (hdst : handshakeRespSz ≤ dstLen)
    (hopen : h.params.openInitiation p = .ok (.ok (timestamp, hash, chainingKey)))
    (hafter : timestamp.after h.lastHandshakeTimestamp = true) :
    ∃ packet h' w', ∃ f : K.Secret,
      h.receiveHandshakeInitialization p dstLen w = .ok (.ok (packet,
        .new h.nextLocalIndex p.senderIdx
          (h.params.sealResponse f hash chainingKey p.unencryptedEphemeral).2.receivingKey
          (h.params.sealResponse f hash chainingKey p.unencryptedEphemeral).2.sendingKey), h', w') ∧
      parseIncomingPacket packet = .ok (.handshakeResponse
        (h.params.responseOf f hash chainingKey p.unencryptedEphemeral h.nextLocalIndex
          p.senderIdx)) := by
  let f := w.secrets w.draws
  let sealed := h.params.sealResponse f hash chainingKey p.unencryptedEphemeral
  let h₁ := { h with
    nextLocalIndex := nextIndex h.nextLocalIndex
    lastHandshakeTimestamp := timestamp
    previous := h.state
    state := .none }
  let msg := toLe 4 MessageType.handshakeResp ++ toLe 4 h.nextLocalIndex ++ toLe 4 p.senderIdx ++
    K.publicKey f ++ sealed.1
  have hcall : h.receiveHandshakeInitialization p dstLen w =
      .ok (.ok ((h₁.appendMac1AndMac2 h.nextLocalIndex msg).1,
          .new h.nextLocalIndex p.senderIdx sealed.2.receivingKey sealed.2.sendingKey),
        (h₁.appendMac1AndMac2 h.nextLocalIndex msg).2,
        { w with draws := w.draws + 1, established := ⟨sealed.2, f⟩ :: w.established }) := by
    rw [receiveHandshakeInitialization, hopen, ok_bind]
    simp only [hafter, Bool.not_true, Bool.false_eq_true, if_false]
    rw [formatHandshakeResponse, if_neg (Nat.not_lt.mpr hdst)]
    rfl
  refine ⟨_, _, _, f, hcall, ?_⟩
  obtain ⟨mac1, mac2, hmac1, hmac2, happend⟩ := h₁.appendMac1AndMac2_fst h.nextLocalIndex msg
  rw [happend]
  exact parseIncomingPacket_handshakeResponse hidx hsender (K.length_publicKey f)
    (length_encryptedNothing _ _ _ _ _) hmac1 hmac2

theorem receiveHandshakeResponse_eq {q : HandshakeResponse} {sent : HandshakeInitSentState K}
    {keys : ResponseKeys} (hexpected : h.expected q.receiverIdx = some sent)
    (hopen : h.params.openResponse sent q = .ok (.ok keys)) :
    ∃ h' w', h.receiveHandshakeResponse q w =
      .ok (.ok (.new sent.localIndex q.senderIdx keys.receivingKey keys.sendingKey), h', w') := by
  rw [receiveHandshakeResponse, hexpected]
  simp only [hopen, ok_bind, pure_eq_ok]
  exact ⟨_, _, rfl⟩

/-- As long as an initiation is held, a response to its index finds it. -/
structure Holds (params : NoiseParams K) (sent : HandshakeInitSentState K) (h : Handshake K) :
    Prop where
  params_eq : h.params = params
  next : h.state = .initSent sent → h.nextLocalIndex = nextIndex sent.localIndex
  first : h.previous = .initSent sent → ∀ s, h.state = .initSent s →
    s.localIndex = sent.localIndex → s = sent

theorem nextIndex_ne (index : ℕ) : nextIndex index ≠ index := by
  rw [nextIndex]
  omega

theorem Holds.expected {params : NoiseParams K} {sent : HandshakeInitSentState K}
    (hholds : h.Holds params sent) (hpending : h.Pending sent) :
    h.expected sent.localIndex = some sent := by
  rw [Handshake.expected, Option.or_eq_some_iff]
  rcases hpending with hstate | hprevious
  · left
    rw [hstate]
    simp [HandshakeState.initSent?]
  · cases hcur : h.state.initSent?.filter (·.localIndex = sent.localIndex) with
    | none =>
      right
      rw [hprevious]
      simp [HandshakeState.initSent?]
    | some s =>
      left
      obtain ⟨hs, hidx⟩ := Option.filter_eq_some_iff.mp hcur
      rw [hholds.first hprevious s (initSent?_eq_some.mp hs) (by simpa using hidx)]

end Handshake

theorem Effect.holds {t t' : Tunn K} {w w' : World K N BYTES} {l : Option Packet}
    {params : NoiseParams K} {sent : HandshakeInitSentState K} (effect : Effect t w l t' w')
    (h : t.handshake.Holds params sent) : t'.handshake.Holds params sent := by
  cases effect with
  | expireSessions _ call =>
    rw [Tunn.updateSessionTimers_ok call]
    exact h
  | encrypt call =>
    rcases Tunn.sealWithCurrent_ok call with ⟨-, rfl, rfl, -⟩ | ⟨packet, s, -, -, -, rfl, rfl⟩
    · exact h
    · exact h
  | cookies => exact ⟨h.params_eq, h.next, h.first⟩
  | expireHandshake => exact ⟨h.params_eq, (nomatch ·), (nomatch ·)⟩
  | initiate call =>
    obtain ⟨new, cookies, hidx, -, rfl, rfl⟩ := Handshake.formatHandshakeInitiation_ok call
    refine ⟨h.params_eq, fun hstate => ?_, fun hprevious s hs heq => ?_⟩
    · cases hstate
      rw [hidx]
    · cases hs
      rw [hidx, h.next hprevious] at heq
      exact absurd heq (Handshake.nextIndex_ne _)
  | refuse call =>
    obtain ⟨rfl, rfl | ⟨timestamp, hash, chainingKey, -, -, rfl⟩⟩ :=
      Handshake.receiveHandshakeInitialization_error call
    · exact h
    · exact ⟨h.params_eq, (nomatch ·), fun _ _ => (nomatch ·)⟩
  | respond call =>
    obtain ⟨timestamp, hash, chainingKey, keys, cookies, -, -, rfl, rfl, rfl⟩ :=
      Handshake.receiveHandshakeInitialization_ok call
    rw [(Tunn.installResponder_installed _ _).handshake_eq]
    exact ⟨h.params_eq, (nomatch ·), fun _ _ => (nomatch ·)⟩
  | conclude call sealed =>
    obtain ⟨state, keys, hexpected, -, rfl, ⟨rtt, rfl⟩, rfl⟩ :=
      Handshake.receiveHandshakeResponse_ok call
    rw [(Tunn.installInitiator_installed _ _).handshake_eq]
    obtain ⟨-, ⟨-, hconsume⟩ | ⟨-, hconsume⟩⟩ :=
      Handshake.expected_eq_some (h := { t.handshake with lastRtt := rtt }) hexpected
    · rw [hconsume]
      exact ⟨h.params_eq, (nomatch ·), fun _ _ => (nomatch ·)⟩
    · rw [hconsume]
      exact ⟨h.params_eq, h.next, (nomatch ·)⟩
  | reject _ call =>
    rw [Tunn.decryptRawData_error call]
    exact h
  | receive _ hp call =>
    obtain ⟨s, s', -, -, rfl⟩ := Tunn.decryptRawData_ok call
    exact (Tunn.setCurrentSession_handshake _ _).symm ▸ h
  | _ => exact h

namespace Tunn

/-- Two tunnels that know each other's static keys complete a handshake, whatever happened to
either before and whatever the initiator does while it awaits the response. Their sessions mirror
each other. -/
theorem handshake_mirrors (hK : K.Lawful) (a b : K.Secret) {N' BYTES' : ℕ} (tA tB : Tunn K)
    (wA : World K N BYTES) (wB : World K N' BYTES') (dstA dstB : ℕ) {timestamp : Bytes}
    (hA : tA.handshake.params = .new a (K.publicKey a) (K.publicKey b))
    (hB : tB.handshake.params = .new b (K.publicKey b) (K.publicKey a))
    (hidxA : tA.handshake.nextLocalIndex < 2 ^ 32) (hidxB : tB.handshake.nextLocalIndex < 2 ^ 32)
    (hdstA : handshakeInitSz ≤ dstA) (hdstB : handshakeRespSz ≤ dstB)
    (hstamp : tA.stamper.stampAt (wA.clock wA.reads) = .ok timestamp)
    (hlater : (Tai64N.parse timestamp).after tB.handshake.lastHandshakeTimestamp = true) :
    ∃ initiation h wA' sent p,
      tA.handshake.formatHandshakeInitiation dstA tA.stamper wA = .ok (.ok initiation, h, wA') ∧
      h.state = .initSent sent ∧ parseIncomingPacket initiation = .ok (.handshakeInit p) ∧
      parseHandshakeAnon K b (K.publicKey b) p = .ok (.ok (K.publicKey a)) ∧
      ∃ response sB hB' wB' q,
        tB.handshake.receiveHandshakeInitialization p dstB wB =
          .ok (.ok (response, sB), hB', wB') ∧
        parseIncomingPacket response = .ok (.handshakeResponse q) ∧
        ∀ ops replies tA' wA'',
          Machine.run step ({ tA with handshake := h }, wA') ops = .ok (replies, tA', wA'') →
          tA'.handshake.state = .initSent sent ∨ tA'.handshake.previous = .initSent sent →
          ∃ sA hA' wA''',
            tA'.handshake.receiveHandshakeResponse q wA'' = .ok (.ok sA, hA', wA''') ∧
            sA.sendingKey = sB.receivingKey ∧ sA.receivingKey = sB.sendingKey ∧
            sA.sendingIndex = sB.receivingIndex ∧ sB.sendingIndex = sA.receivingIndex := by
  change _ = ofPeer a b at hA
  change _ = ofPeer b a at hB
  obtain ⟨initiation, h, wA', sent, hformat, hstate, hparams, hnext, hidx, hhash, hkey, -, hparse⟩ :=
    Handshake.formatHandshakeInitiation_eq hA hidxA hdstA hstamp
  have hopen := openInitiation_sealInitiation a b sent.ephemeralPrivate hK sent.localIndex
    (TimeStamper.length_stampAt hstamp)
  rw [← hhash, ← hkey, ← hB] at hopen
  obtain ⟨response, hB', wB', f, hreceive, hparse'⟩ :=
    Handshake.receiveHandshakeInitialization_eq (w := wB) hidxB (hidx ▸ hidxA) hdstB hopen hlater
  refine ⟨initiation, h, wA', sent, _, hformat, hstate, hparse,
    parseHandshakeAnon_sealInitiation a b _ hK _ _, response, _, hB', wB', _, hreceive, hparse', ?_⟩
  intro ops replies tA' wA'' hrun hpending
  obtain ⟨ls, hpath, -⟩ := run_path hrun
  have hholds : h.Holds (ofPeer a b) sent :=
    ⟨hparams.trans hA, fun _ => hnext, fun _ s hs _ => by
      rw [hstate] at hs
      cases hs
      rfl⟩
  have hholds' : tA'.handshake.Holds (ofPeer a b) sent :=
    hpath.invariant (I := fun t _ => t.handshake.Holds _ _) Effect.holds hholds
  rw [hB] at hreceive hparse' ⊢
  have hopen' := openResponse_sealResponse a b f hK sent tB.handshake.nextLocalIndex sent.localIndex
  rw [← hholds'.params_eq] at hopen'
  obtain ⟨hA', wA''', hfinish⟩ :=
    Handshake.receiveHandshakeResponse_eq (w := wA'') (hholds'.expected hpending) hopen'
  exact ⟨_, hA', wA''', hfinish, rfl, rfl, rfl, rfl⟩

theorem handshake_mirrors_sample :
    Crypto.sample.Lawful ∧ ∃ initiation h w p response sA sB hA wA hB wB q,
      Sample.initiator.1.handshake.formatHandshakeInitiation maxPacketSize ⟨0, 0⟩ Sample.world =
        .ok (.ok initiation, h, w) ∧
      parseIncomingPacket initiation = .ok (.handshakeInit p) ∧
      Sample.responder.1.handshake.receiveHandshakeInitialization p maxPacketSize Sample.world =
        .ok (.ok (response, sB), hB, wB) ∧
      parseIncomingPacket response = .ok (.handshakeResponse q) ∧
      h.receiveHandshakeResponse q w = .ok (.ok sA, hA, wA) ∧
      sA.sendingKey = sB.receivingKey ∧ sA.receivingKey = sB.sendingKey := by
  have hstamp : okAnd (fun timestamp => (Tai64N.parse timestamp).after {})
      (TimeStamper.stampAt ⟨0, 0⟩ 0) = true := by decide +kernel
  obtain ⟨timestamp, hstamp, hlater⟩ := exists_of_okAnd hstamp
  obtain ⟨initiation, h, w, sent, p, hformat, hstate, hparse, -, response, sB, hB, wB, q, hreceive,
      hparse', hrest⟩ :=
    handshake_mirrors Crypto.sample_lawful Sample.initiatorSecret Sample.responderSecret
      Sample.initiator.1 Sample.responder.1 Sample.world Sample.world maxPacketSize maxPacketSize
      rfl rfl (by decide) (by decide) (by decide) (by decide) hstamp hlater
  obtain ⟨sA, hA, wA, hfinish, hsend, hreceive', -⟩ := hrest [] [] _ w rfl (.inl hstate)
  exact ⟨Crypto.sample_lawful, initiation, h, w, p, response, sA, sB, hA, wA, hB, wB, q, hformat,
    hparse, hreceive, hparse', hfinish, hsend, hreceive'⟩

end Tunn

end Tendrilix.Noise
