import Tendrilix.Noise.NonceUniqueness

/-!
# No message is accepted twice

Initiations are told apart by their timestamps, responses by the handshake they complete, and
transport messages by the counter window of their session. None of these survives alone: sessions
are replaced and indexes wrap around, but keys do not come back.
-/

namespace Tendrilix.Noise

open ReplayWindow

variable {K : Crypto} {N BYTES : ℕ}

def HandshakeResponse.Opens (K : Crypto) (keys : ResponseKeys) (p : HandshakeResponse) : Prop :=
  ∃ plaintext, K.decrypt keys.responseKey (nonceOf 0) keys.responseHash
    (p.encryptedNothing.take (p.encryptedNothing.length - 16))
    (p.encryptedNothing.drop (p.encryptedNothing.length - 16)) = some plaintext

theorem NoiseParams.openResponse_opens {params : NoiseParams K} {state : HandshakeInitSentState K}
    {p : HandshakeResponse} {keys : ResponseKeys}
    (h : params.openResponse state p = .ok (.ok keys)) : p.Opens K keys := by
  obtain ⟨opened, hopen, h⟩ := bind_ok_iff.mp h
  cases opened with
  | error e => cases h
  | ok nothing =>
    cases h
    exact ⟨nothing, aeadChacha20Open_ok hopen⟩

def Packet.transport? : Packet → Option Data
  | .data p | .relayData p => some p
  | _ => none

def Carried (past : List Packet) (p : Data) : Prop := ∃ packet ∈ past, packet.transport? = some p

theorem carried_append {past : List Packet} {packet : Packet} {p : Data} :
    Carried (past ++ [packet]) p ↔ Carried past p ∨ packet.transport? = some p := by
  simp only [Carried, List.mem_append, List.mem_singleton]
  constructor
  · intro ⟨q, hq, hp⟩
    rcases hq with hq | rfl
    · exact .inl ⟨q, hq, hp⟩
    · exact .inr hp
  · intro h
    rcases h with ⟨q, hq, hp⟩ | hp
    · exact ⟨q, .inl hq, hp⟩
    · exact ⟨packet, .inr rfl, hp⟩

theorem nodup_append_singleton {past : List Packet} {packet : Packet} (h : past.Nodup)
    (hpacket : packet ∉ past) : (past ++ [packet]).Nodup := by
  rw [List.nodup_append]
  refine ⟨h, List.nodup_singleton _, fun q hq q' hq' heq => ?_⟩
  rw [List.mem_singleton] at hq'
  exact hpacket (hq' ▸ heq ▸ hq)

namespace KeyState

variable {a a' : KeyState K} {l : Option Packet} {past : List Packet} {delivered : Packet → Prop}

/-- A delivered message that opens under a key of one handshake of the run opens under that of no
other. -/
structure OpensOnce (delivered : Packet → Prop) (a : KeyState K) : Prop where
  responses : ∀ p, delivered (.handshakeResponse p) → ∀ e ∈ a.established, ∀ e' ∈ a.established,
    p.Opens K e.toResponseKeys → p.Opens K e'.toResponseKeys → e.responseKey = e'.responseKey
  transport : ∀ packet p, delivered packet → packet.transport? = some p →
    ∀ e ∈ a.established, ∀ e' ∈ a.established,
      p.Opens K e.receivingKey → p.Opens K e'.receivingKey → e.receivingKey = e'.receivingKey

theorem OpensOnce.of_step (step : KeyStep a l a')
    (h : a'.OpensOnce delivered) : a.OpensOnce delivered := by
  have hsub : a.established ⊆ a'.established := by
    cases step with
    | respond => exact List.subset_cons_self _ _
    | conclude => exact List.subset_cons_self _ _
    | _ => exact List.Subset.refl _
  exact ⟨fun p hp e he e' he' => h.responses p hp e (hsub he) e' (hsub he'),
    fun packet p hd hp e he e' he' => h.transport packet p hd hp e (hsub he) e' (hsub he')⟩

structure Unreplayed (past : List Packet) (a : KeyState K) : Prop where
  nodup : past.Nodup
  inits : ∀ p, .handshakeInit p ∈ past → ∃ timestamp hash chainingKey,
    a.params.openInitiation p = .ok (.ok (timestamp, hash, chainingKey)) ∧
      timestamp.after a.lastHandshakeTimestamp = false
  responses : ∀ p, .handshakeResponse p ∈ past →
    ∃ e ∈ a.established, p.Opens K e.toResponseKeys
  transport : ∀ p, Carried past p → ∃ e ∈ a.established, p.Opens K e.receivingKey
  marked : ∀ i s, a.sessions i = some s → ∃ seen, Tracks s.receivingKeyCounter seen ∧
    ∀ p, Carried past p → p.Opens K s.receivingKey → p.counter ∈ seen

theorem Unreplayed.silent (h : Unreplayed past a) (hparams : a'.params = a.params)
    (hlast : a'.lastHandshakeTimestamp = a.lastHandshakeTimestamp ∨
      a'.lastHandshakeTimestamp.after a.lastHandshakeTimestamp = true)
    (hestablished : a'.established = a.established)
    (hsessions : ∀ i s, a'.sessions i = some s → ∃ s₀, a.sessions i = some s₀ ∧
      s.receivingKey = s₀.receivingKey ∧ s.receivingKeyCounter = s₀.receivingKeyCounter) :
    Unreplayed past a' where
  nodup := h.nodup
  inits := by
    intro p hp
    obtain ⟨timestamp, hash, chainingKey, hopen, hafter⟩ := h.inits p hp
    refine ⟨timestamp, hash, chainingKey, hparams ▸ hopen, ?_⟩
    rcases hlast with hlast | hlast
    · rw [hlast]
      exact hafter
    · exact Tai64N.not_after_of_after hafter hlast
  responses := by
    rw [hestablished]
    exact h.responses
  transport := by
    rw [hestablished]
    exact h.transport
  marked := by
    intro i s hs
    obtain ⟨s₀, hs₀, hr, hcounter⟩ := hsessions i s hs
    rw [hr, hcounter]
    exact h.marked i s₀ hs₀

theorem Unreplayed.install (h : Unreplayed past a) (hopens : a'.OpensOnce delivered)
    (hpast : ∀ q ∈ past, delivered q) {packet : Packet}
    {e : Established K} {i : Fin 3} {s : Session}
    (hestablished : a'.established = e :: a.established)
    (hsessions : a'.sessions = Function.update a.sessions i (some s))
    (hr : s.receivingKey = e.receivingKey) (hcounter : s.receivingKeyCounter = {})
    (hnew : ∀ e' ∈ a.established, e.receivingKey ≠ e'.receivingKey) (hpacket : packet ∉ past)
    (htransport : packet.transport? = none)
    (hinits : ∀ p, .handshakeInit p ∈ past ++ [packet] → ∃ timestamp hash chainingKey,
      a'.params.openInitiation p = .ok (.ok (timestamp, hash, chainingKey)) ∧
        timestamp.after a'.lastHandshakeTimestamp = false)
    (hresponses : ∀ p, .handshakeResponse p ∈ past ++ [packet] →
      ∃ e ∈ a'.established, p.Opens K e.toResponseKeys) : Unreplayed (past ++ [packet]) a' := by
  have hcarried : ∀ p, Carried (past ++ [packet]) p → Carried past p := by
    intro p hp
    rcases carried_append.mp hp with hp | hp
    · exact hp
    · rw [htransport] at hp
      cases hp
  refine ⟨nodup_append_singleton h.nodup hpacket, hinits, hresponses, ?_, ?_⟩
  · intro p hp
    obtain ⟨e', he', hopen⟩ := h.transport p (hcarried p hp)
    exact ⟨e', by simp [hestablished, he'], hopen⟩
  · intro j s' hs'
    rw [hsessions] at hs'
    rcases update_eq_some.mp hs' with ⟨-, rfl⟩ | ⟨-, hs'⟩
    · refine ⟨∅, hcounter ▸ tracks_empty, fun p hp hopen => ?_⟩
      obtain ⟨e', he', hopen'⟩ := h.transport p (hcarried p hp)
      rw [hr] at hopen
      obtain ⟨q, hq, hqp⟩ := hcarried p hp
      have heq := hopens.transport q p (hpast q hq) hqp e (by simp [hestablished]) e'
        (by simp [hestablished, he']) hopen hopen'
      exact absurd heq (hnew e' he')
    · obtain ⟨seen, htracks, hmarked⟩ := h.marked j s' hs'
      exact ⟨seen, htracks, fun p hp => hmarked p (hcarried p hp)⟩

theorem Unreplayed.not_mem_of_after (h : Unreplayed past a) {p : HandshakeInit} {timestamp : Tai64N}
    {hash chainingKey : Bytes}
    (hopen : a.params.openInitiation p = .ok (.ok (timestamp, hash, chainingKey)))
    (hafter : timestamp.after a.lastHandshakeTimestamp = true) : .handshakeInit p ∉ past := by
  intro hmem
  obtain ⟨timestamp', hash', chainingKey', hopen', hafter'⟩ := h.inits p hmem
  cases hopen.symm.trans hopen'
  rw [hafter] at hafter'
  cases hafter'

theorem Unreplayed.receive (h : Unreplayed past a) (howned : a.Owned)
    (hopens : a.OpensOnce delivered) {p : Data} {packet : Packet} {i : Fin 3} {s : Session} {v : ReceivingKeyCounterValidator}
    {receiveCnt : ℕ} (hs : a.sessions i = some s) (hp : packet.transport? = some p)
    (hpacket : delivered packet) (hlt : p.counter < rejectAfterMessages) (hopen : p.Opens K s.receivingKey)
    (hmark : s.receivingKeyCounter.markDidReceive p.counter = .ok (.ok (), v)) :
    Unreplayed (past ++ [packet])
      { a with
        sessions := Function.update a.sessions i
          (some { s with receivingKeyCounter := { v with receiveCnt := receiveCnt } }) } := by
  obtain ⟨seen, htracks, hmarked⟩ := h.marked i s hs
  obtain ⟨r, v', hcall, hspec⟩ := markDidReceive_spec htracks hlt
  cases hmark.symm.trans hcall
  obtain ⟨e, he, her, -⟩ := howned.live i s hs
  have hnew : packet ∉ past := by
    intro hmem
    exact (hspec.accepts_iff.mp rfl).1 (hmarked p ⟨packet, hmem, hp⟩ hopen)
  have hcarried : ∀ q, Carried (past ++ [packet]) q → Carried past q ∨ q = p := by
    intro q hq
    rcases carried_append.mp hq with hq | hq
    · exact .inl hq
    · rw [hp] at hq
      cases hq
      exact .inr rfl
  refine ⟨nodup_append_singleton h.nodup hnew, ?_, ?_, ?_, ?_⟩
  · intro q hq
    rcases List.mem_append.mp hq with hq | hq
    · exact h.inits q hq
    · rw [List.mem_singleton] at hq
      subst hq
      cases hp
  · intro q hq
    rcases List.mem_append.mp hq with hq | hq
    · exact h.responses q hq
    · rw [List.mem_singleton] at hq
      subst hq
      cases hp
  · intro q hq
    rcases hcarried q hq with hq | rfl
    · exact h.transport q hq
    · exact ⟨e, he, her ▸ hopen⟩
  · intro j s' hs'
    rcases update_eq_some.mp hs' with ⟨-, rfl⟩ | ⟨hj, hs'⟩
    · refine ⟨insert p.counter seen, (hspec.tracks rfl).setReceiveCnt receiveCnt, fun q hq hq' => ?_⟩
      rcases hcarried q hq with hq | rfl
      · exact Finset.mem_insert_of_mem (hmarked q hq hq')
      · exact Finset.mem_insert_self _ _
    · obtain ⟨seen', htracks', hmarked'⟩ := h.marked j s' hs'
      refine ⟨seen', htracks', fun q hq hq' => ?_⟩
      rcases hcarried q hq with hq | rfl
      · exact hmarked' q hq hq'
      -- The message would open under the keys of two sessions.
      · obtain ⟨e', he', her', -⟩ := howned.live j s' hs'
        have heq := hopens.transport packet _ hpacket hp e' he' e he (her'.symm ▸ hq')
          (her.symm ▸ hopen)
        exact absurd (howned.distinct j i s' s hs' hs (.inl (her'.symm.trans (heq.trans her)))) hj

theorem Unreplayed.step (step : KeyStep a l a') (hfresh : a'.FreshKeys)
    (hopens : a'.OpensOnce delivered) (hgiven : ∀ q ∈ past ++ l.toList, delivered q)
    (howned : a.Owned) (h : Unreplayed past a) : Unreplayed (past ++ l.toList) a' := by
  have hpast : ∀ q ∈ past, delivered q := fun q hq => hgiven q (List.mem_append_left _ hq)
  have hlabel : ∀ q ∈ l.toList, delivered q := fun q hq => hgiven q (List.mem_append_right _ hq)
  have hkeys {e : Established K} := howned.established_new (e := e) step hfresh
  have hsilent := hopens.of_step step
  cases step with
  | quiet hlast hpending hsessions =>
    rw [Option.toList_none, List.append_nil]
    exact h.silent rfl hlast rfl fun i s hs => ⟨s, hsessions i s hs, rfl, rfl⟩
  | encrypt hs hlt =>
    rw [Option.toList_none, List.append_nil]
    refine h.silent rfl (.inl rfl) rfl fun j s' hs' => ?_
    rcases update_eq_some.mp hs' with ⟨rfl, rfl⟩ | ⟨-, hs'⟩
    · exact ⟨_, hs, rfl, rfl⟩
    · exact ⟨s', hs', rfl, rfl⟩
  | initiate =>
    rw [Option.toList_none, List.append_nil]
    exact h.silent rfl (.inl rfl) rfl fun i s hs => ⟨s, hs, rfl, rfl⟩
  | @respond p timestamp hash chainingKey keys pending localIndex hopen hafter hpending =>
    refine h.install hopens hpast rfl rfl rfl rfl (fun e' he' => (hkeys rfl e' he').2.1)
      (h.not_mem_of_after hopen hafter) rfl ?_ ?_
    · intro q hq
      rcases List.mem_append.mp hq with hq | hq
      · obtain ⟨ts, hash', chainingKey', hopen', hafter'⟩ := h.inits q hq
        exact ⟨ts, hash', chainingKey', hopen', Tai64N.not_after_of_after hafter' hafter⟩
      · rw [List.mem_singleton] at hq
        cases hq
        exact ⟨timestamp, hash, chainingKey, hopen, Tai64N.not_after_self _⟩
    · intro q hq
      rcases List.mem_append.mp hq with hq | hq
      · obtain ⟨e, he, hq⟩ := h.responses q hq
        exact ⟨e, List.mem_cons_of_mem _ he, hq⟩
      · exact nomatch List.mem_singleton.mp hq
  | @conclude p sent pending keys localIndex hpending hopen =>
    have hp := NoiseParams.openResponse_opens hopen
    have hpacket : .handshakeResponse p ∉ past := by
      intro hmem
      obtain ⟨e', he', hp'⟩ := h.responses p hmem
      have heq := hopens.responses p (hpast _ hmem) _ List.mem_cons_self e'
        (List.mem_cons_of_mem _ he') hp hp'
      exact (hkeys rfl e' he').1 heq
    refine h.install hopens hpast rfl rfl rfl rfl (fun e' he' => (hkeys rfl e' he').2.1) hpacket rfl
      ?_ ?_
    · intro q hq
      rcases List.mem_append.mp hq with hq | hq
      · exact h.inits q hq
      · exact nomatch List.mem_singleton.mp hq
    · intro q hq
      rcases List.mem_append.mp hq with hq | hq
      · obtain ⟨e, he, hq⟩ := h.responses q hq
        exact ⟨e, List.mem_cons_of_mem _ he, hq⟩
      · cases List.mem_singleton.mp hq
        exact ⟨_, List.mem_cons_self, hp⟩
  | @receive p packet i s v receiveCnt hs hp hlt hopen hmark =>
    have hp : packet.transport? = some p := by
      rcases hp with rfl | rfl
      · rfl
      · rfl
    exact h.receive howned hsilent hs hp (hlabel packet (Option.mem_toList.mpr rfl)) hlt hopen hmark

end KeyState

theorem Sample.tag_of_decrypt {k n a c t m : Bytes} (h : Sample.decrypt k n a c t = some m) :
    t.take 8 = (k ++ Bytes.zeros 8).take 8 := by
  rw [Sample.decrypt] at h
  split at h
  · rename_i htag
    rw [← htag]
    simp [Sample.encrypt]
  · cases h

theorem Sample.opensOnce {a : KeyState Crypto.sample} (delivered : Packet → Prop)
    (hresponses : ∀ e ∈ a.established, ∀ e' ∈ a.established,
      (e.responseKey ++ Bytes.zeros 8).take 8 = (e'.responseKey ++ Bytes.zeros 8).take 8 →
        e.responseKey = e'.responseKey)
    (htransport : ∀ e ∈ a.established, ∀ e' ∈ a.established,
      (e.receivingKey ++ Bytes.zeros 8).take 8 = (e'.receivingKey ++ Bytes.zeros 8).take 8 →
        e.receivingKey = e'.receivingKey) : a.OpensOnce delivered where
  responses := by
    rintro p - e he e' he' ⟨m, hm⟩ ⟨m', hm'⟩
    exact hresponses e he e' he' ((Sample.tag_of_decrypt hm).symm.trans (Sample.tag_of_decrypt hm'))
  transport := by
    rintro packet p - - e he e' he' ⟨m, hm⟩ ⟨m', hm'⟩
    exact htransport e he e' he' ((Sample.tag_of_decrypt hm).symm.trans (Sample.tag_of_decrypt hm'))

namespace Tunn

theorem new_unreplayed {staticPrivate : K.Secret} {peerStaticPublic : Bytes}
    {keepalive : Option ℕ} {index : ℕ} {stamper : TimeStamper} {w : World K N BYTES} :
    let s := Tunn.new staticPrivate peerStaticPublic keepalive index stamper w
    (s.1.keyState s.2).Unreplayed [] where
  nodup := List.nodup_nil
  inits := by
    intro p hp
    cases hp
  responses := by
    intro p hp
    cases hp
  transport := by
    intro p ⟨q, hq, _⟩
    cases hq
  marked := by
    intro i s hs
    cases hs

/-- In every run of a tunnel with fresh keys, whatever datagrams are delivered, no datagram is
accepted twice. -/
theorem run_accepts_once {staticPrivate : K.Secret} {peerStaticPublic : Bytes}
    {keepalive : Option ℕ} {index : ℕ} {stamper : TimeStamper} {clock : ℕ → ℕ}
    {secrets : ℕ → K.Secret} {pool : PacketPool N BYTES} {ops : List (Op N BYTES)}
    {replies : List Reply} {t : Tunn K} {w : World K N BYTES}
    (hrun : Machine.run step
      (Tunn.new staticPrivate peerStaticPublic keepalive index stamper
        (World.start clock secrets pool)) ops = .ok (replies, t, w))
    (hfresh : (t.keyState w).FreshKeys) (hopens : (t.keyState w).OpensOnce (Delivered ops)) :
    (acceptedDatagrams ops replies).Nodup := by
  obtain ⟨ls, hpath, hdelivered, hsub⟩ := run_path hrun
  have hinv := hpath.keyState_invariant (A := fun a => a.FreshKeys ∧ a.OpensOnce (Delivered ops))
    (I := fun past a => (∀ packet ∈ past, Delivered ops packet) → a.Owned ∧ a.Unreplayed past)
    (fun step h => ⟨h.1.of_step step, h.2.of_step step⟩)
    (fun step h hinv hall => by
      obtain ⟨howned, hpast⟩ := hinv fun q hq => hall q (List.mem_append_left _ hq)
      exact ⟨howned.step step h.1, hpast.step step h.1 h.2 hall howned⟩)
    ⟨hfresh, hopens⟩ [] fun _ => ⟨new_owned, new_unreplayed⟩
  have hls : (ls.map (Except.ok (ε := WireGuardError))).Nodup :=
    (hinv hdelivered).2.nodup.map fun _ _ h => Except.ok.inj h
  exact (hls.sublist hsub).of_map

theorem run_accepts_once_responder :
    ∃ replies t w, Machine.run step Sample.responder Sample.ops = .ok (replies, t, w) ∧
      (t.keyState w).FreshKeys ∧ (t.keyState w).OpensOnce (Delivered Sample.ops) ∧
      (acceptedDatagrams Sample.ops replies).length = 2 ∧
      (acceptedDatagrams Sample.ops replies).Nodup := by
  have hcheck : okAnd (fun (replies, t, w) => (t.keyState w).FreshKeys ∧
      (∀ e ∈ w.established, ∀ e' ∈ w.established,
        (e.responseKey ++ Bytes.zeros 8).take 8 = (e'.responseKey ++ Bytes.zeros 8).take 8 →
          e.responseKey = e'.responseKey) ∧
      (∀ e ∈ w.established, ∀ e' ∈ w.established,
        (e.receivingKey ++ Bytes.zeros 8).take 8 = (e'.receivingKey ++ Bytes.zeros 8).take 8 →
          e.receivingKey = e'.receivingKey) ∧
      (acceptedDatagrams Sample.ops replies).length = 2)
      (Machine.run step Sample.responder Sample.ops) = true := by decide +kernel
  obtain ⟨⟨replies, t, w⟩, hrun, hcheck⟩ := exists_of_okAnd hcheck
  obtain ⟨hfresh, hresponses, htransport, hlength⟩ := of_decide_eq_true hcheck
  have hopens := Sample.opensOnce (a := t.keyState w) (Delivered Sample.ops) hresponses htransport
  exact ⟨replies, t, w, hrun, hfresh, hopens, hlength, run_accepts_once hrun hfresh hopens⟩

end Tunn

end Tendrilix.Noise
