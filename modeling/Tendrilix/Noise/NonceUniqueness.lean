import Tendrilix.Noise.KeyFreshness

/-!
# No nonce is used twice

A session counts the packets it has sealed, and no other session ever has its key. A session that
has used up its counters stays silent.
-/

namespace Tendrilix.Noise

variable {K : Crypto} {N BYTES : ℕ}

namespace KeyState

variable {a a' : KeyState K} {l : Option Packet}

structure NoncesUnique (a : KeyState K) : Prop where
  nodup : a.sealed.Nodup
  bounded : ∀ k c, (k, c) ∈ a.sealed → c < rejectAfterMessages
  known : ∀ k c, (k, c) ∈ a.sealed → ∃ e ∈ a.established, e.sendingKey = k
  behind : ∀ i s c, a.sessions i = some s → (s.sendingKey, c) ∈ a.sealed → c < s.sendingKeyCounter

theorem NoncesUnique.congr (h : a.NoncesUnique) (hsealed : a'.sealed = a.sealed)
    (hestablished : a.established ⊆ a'.established)
    (hsessions : ∀ i s, a'.sessions i = some s → ∃ s₀, a.sessions i = some s₀ ∧
      s.sendingKey = s₀.sendingKey ∧ s.sendingKeyCounter = s₀.sendingKeyCounter) :
    a'.NoncesUnique where
  nodup := hsealed ▸ h.nodup
  bounded := hsealed ▸ h.bounded
  known := by
    intro k c hmem
    rw [hsealed] at hmem
    obtain ⟨e, he, hk⟩ := h.known k c hmem
    exact ⟨e, hestablished he, hk⟩
  behind := by
    intro i s c hs hmem
    obtain ⟨s₀, hs₀, hk, hcounter⟩ := hsessions i s hs
    rw [hsealed, hk] at hmem
    rw [hcounter]
    exact h.behind i s₀ c hs₀ hmem

theorem NoncesUnique.advance (h : a.NoncesUnique) {i : Fin 3} {s : Session} {k : Bytes} {c : ℕ}
    (hsealed : a'.sealed = (k, c) :: a.sealed)
    (hsessions : a'.sessions = Function.update a.sessions i (some s))
    (hk : s.sendingKey = k) (hcounter : s.sendingKeyCounter = c + 1)
    (hc : c < rejectAfterMessages) (hestablished : a.established ⊆ a'.established)
    (hknown : ∃ e ∈ a'.established, e.sendingKey = k) (hnew : ∀ c', (k, c') ∈ a.sealed → c' < c)
    (hother : ∀ j s', j ≠ i → a.sessions j = some s' → s'.sendingKey ≠ k) : a'.NoncesUnique where
  nodup := by
    rw [hsealed]
    exact List.nodup_cons.mpr ⟨fun hmem => Nat.lt_irrefl c (hnew c hmem), h.nodup⟩
  bounded := by
    intro k' c' hmem
    rw [hsealed, List.mem_cons] at hmem
    rcases hmem with heq | hmem
    · cases heq
      exact hc
    · exact h.bounded k' c' hmem
  known := by
    intro k' c' hmem
    rw [hsealed, List.mem_cons] at hmem
    rcases hmem with heq | hmem
    · cases heq
      exact hknown
    · obtain ⟨e, he, hk'⟩ := h.known k' c' hmem
      exact ⟨e, hestablished he, hk'⟩
  behind := by
    intro j s' c' hs' hmem
    rw [hsealed, List.mem_cons, Prod.mk.injEq] at hmem
    rw [hsessions] at hs'
    by_cases hj : j = i
    · rw [hj, Function.update_self] at hs'
      cases hs'
      rcases hmem with ⟨-, rfl⟩ | hmem
      · omega
      · have hlt := hnew c' (hk ▸ hmem)
        omega
    · rw [Function.update_of_ne hj] at hs'
      rcases hmem with ⟨hk', -⟩ | hmem
      · exact absurd hk' (hother j s' hj hs')
      · exact h.behind j s' c' hs' hmem

theorem NoncesUnique.not_mem_of_new (h : a.NoncesUnique) {e : Established K}
    (hnew : ∀ e' ∈ a.established, e.sendingKey ≠ e'.sendingKey) (c : ℕ) :
    (e.sendingKey, c) ∉ a.sealed := by
  intro hmem
  obtain ⟨e', he', hk⟩ := h.known _ c hmem
  exact hnew e' he' hk.symm

theorem NoncesUnique.step (step : KeyStep a l a') (hfresh : a'.FreshKeys) (howned : a.Owned)
    (h : a.NoncesUnique) : a'.NoncesUnique := by
  have hkeys {e : Established K} := howned.established_new (e := e) step hfresh
  cases step with
  | quiet hlast hpending hsessions =>
    exact h.congr rfl (List.Subset.refl _) fun i s hs => ⟨s, hsessions i s hs, rfl, rfl⟩
  | encrypt hs hlt =>
    obtain ⟨e, he, -, hek⟩ := howned.live _ _ hs
    refine h.advance rfl rfl rfl rfl hlt (List.Subset.refl _) ⟨e, he, hek⟩ (h.behind _ _ · hs) ?_
    intro j s' hj hs' heq
    exact hj (howned.distinct j _ s' _ hs' hs (.inr heq))
  | initiate => exact h.congr rfl (List.Subset.refl _) fun i s hs => ⟨s, hs, rfl, rfl⟩
  | respond hopen hafter hpending =>
    refine ⟨h.nodup, h.bounded, ?_, ?_⟩
    · intro k c hmem
      obtain ⟨e, he, hk⟩ := h.known k c hmem
      exact ⟨e, List.mem_cons_of_mem _ he, hk⟩
    · intro j s c hs hmem
      rcases update_eq_some.mp hs with ⟨-, rfl⟩ | ⟨-, hs⟩
      · exact absurd hmem (h.not_mem_of_new (fun e' he' => (hkeys rfl e' he').2.2) c)
      · exact h.behind j s c hs hmem
  | conclude hpending hopen =>
    have hnew := h.not_mem_of_new fun e' he' => (hkeys rfl e' he').2.2
    refine h.advance rfl rfl rfl rfl (by decide) (List.subset_cons_self _ _)
      ⟨_, List.mem_cons_self, rfl⟩ (fun c' hmem => absurd hmem (hnew c')) ?_
    intro j s' _ hs' heq
    obtain ⟨e', he', -, hek⟩ := howned.live j s' hs'
    exact (hkeys rfl e' he').2.2 (heq.symm.trans hek.symm)
  | receive hs =>
    refine h.congr rfl (List.Subset.refl _) fun j s' hs' => ?_
    rcases update_eq_some.mp hs' with ⟨rfl, rfl⟩ | ⟨-, hs'⟩
    · exact ⟨_, hs, rfl, rfl⟩
    · exact ⟨s', hs', rfl, rfl⟩

structure Exhausted (k : Bytes) (before : List (Bytes × ℕ)) (a : KeyState K) : Prop where
  known : ∃ e ∈ a.established, e.sendingKey = k
  silent : ∀ i s, a.sessions i = some s → s.sendingKey = k →
    rejectAfterMessages ≤ s.sendingKeyCounter
  sealed_eq : a.sealed.filter (·.1 = k) = before.filter (·.1 = k)

theorem Exhausted.of_session (howned : a.Owned) {i : Fin 3} {s : Session}
    (hs : a.sessions i = some s) (hexhausted : rejectAfterMessages ≤ s.sendingKeyCounter) :
    a.Exhausted s.sendingKey a.sealed where
  known := by
    obtain ⟨e, he, -, hk⟩ := howned.live i s hs
    exact ⟨e, he, hk⟩
  silent := by
    intro j s' hs' hk
    obtain rfl := howned.distinct j i s' s hs' hs (.inr hk)
    cases hs.symm.trans hs'
    exact hexhausted
  sealed_eq := rfl

theorem Exhausted.step {k : Bytes} {before : List (Bytes × ℕ)} (step : KeyStep a l a')
    (hfresh : a'.FreshKeys) (howned : a.Owned) (h : a.Exhausted k before) :
    a'.Exhausted k before := by
  have hkeys {e : Established K} := howned.established_new (e := e) step hfresh
  obtain ⟨e₀, he₀, hk₀⟩ := h.known
  cases step with
  | quiet hlast hpending hsessions =>
    exact ⟨h.known, fun i s hs => h.silent i s (hsessions i s hs), h.sealed_eq⟩
  | @encrypt i s hs hlt =>
    have hne : s.sendingKey ≠ k := fun hk => absurd (h.silent i s hs hk) (Nat.not_le.mpr hlt)
    refine ⟨h.known, fun j s' hs' hk => ?_, ?_⟩
    · rcases update_eq_some.mp hs' with ⟨-, rfl⟩ | ⟨-, hs'⟩
      · exact (hne hk).elim
      · exact h.silent j s' hs' hk
    · rw [List.filter_cons_of_neg (by simpa using hne)]
      exact h.sealed_eq
  | initiate => exact ⟨h.known, h.silent, h.sealed_eq⟩
  | respond hopen hafter hpending =>
    refine ⟨⟨e₀, List.mem_cons_of_mem _ he₀, hk₀⟩, fun j s' hs' hk => ?_, h.sealed_eq⟩
    rcases update_eq_some.mp hs' with ⟨-, rfl⟩ | ⟨-, hs'⟩
    · exact absurd (hk.trans hk₀.symm) (hkeys rfl e₀ he₀).2.2
    · exact h.silent j s' hs' hk
  | @conclude p sent pending keys localIndex hpending hopen =>
    have hne : keys.sendingKey ≠ k := fun hk => (hkeys rfl e₀ he₀).2.2 (hk.trans hk₀.symm)
    refine ⟨⟨e₀, List.mem_cons_of_mem _ he₀, hk₀⟩, fun j s' hs' hk => ?_, ?_⟩
    · rcases update_eq_some.mp hs' with ⟨-, rfl⟩ | ⟨-, hs'⟩
      · exact (hne hk).elim
      · exact h.silent j s' hs' hk
    · rw [List.filter_cons_of_neg (by simpa using hne)]
      exact h.sealed_eq
  | @receive p packet i s v receiveCnt hs =>
    refine ⟨h.known, fun j s' hs' hk => ?_, h.sealed_eq⟩
    rcases update_eq_some.mp hs' with ⟨rfl, rfl⟩ | ⟨-, hs'⟩
    · exact h.silent j s hs hk
    · exact h.silent j s' hs' hk

end KeyState

namespace Tunn

variable {t t' : Tunn K} {w w' : World K N BYTES} {ls : List Packet}

theorem keyState_of_path (path : Path t w ls t' w') (hfresh : (t'.keyState w').FreshKeys)
    (h : (t.keyState w).Owned ∧ (t.keyState w).NoncesUnique) :
    (t'.keyState w').Owned ∧ (t'.keyState w').NoncesUnique :=
  path.keyState_invariant (I := fun _ a => a.Owned ∧ a.NoncesUnique) KeyState.FreshKeys.of_step
    (fun step hfresh h => ⟨h.1.step step hfresh, h.2.step step hfresh h.1⟩) hfresh [] h

theorem exhausted_of_path {k : Bytes} {before : List (Bytes × ℕ)} (path : Path t w ls t' w')
    (hfresh : (t'.keyState w').FreshKeys)
    (h : (t.keyState w).Owned ∧ (t.keyState w).Exhausted k before) :
    (t'.keyState w').Owned ∧ (t'.keyState w').Exhausted k before :=
  path.keyState_invariant (I := fun _ a => a.Owned ∧ a.Exhausted k before)
    KeyState.FreshKeys.of_step
    (fun step hfresh h => ⟨h.1.step step hfresh, h.2.step step hfresh h.1⟩) hfresh [] h

variable {staticPrivate : K.Secret} {peerStaticPublic : Bytes} {keepalive : Option ℕ} {index : ℕ}
  {stamper : TimeStamper} {clock : ℕ → ℕ} {secrets : ℕ → K.Secret} {pool : PacketPool N BYTES}
  {ops : List (Op N BYTES)} {replies : List Reply}

theorem new_owned :
    let s := Tunn.new staticPrivate peerStaticPublic keepalive index stamper
      (World.start clock secrets pool)
    (s.1.keyState s.2).Owned where
  once := List.nodup_nil
  drawn := by
    intro k hk
    cases hk
  live := by
    intro i s hs
    cases hs
  distinct := by
    intro i j s s' hs
    cases hs

theorem new_noncesUnique :
    let s := Tunn.new staticPrivate peerStaticPublic keepalive index stamper
      (World.start clock secrets pool)
    (s.1.keyState s.2).NoncesUnique where
  nodup := List.nodup_nil
  bounded := by
    intro k c hmem
    cases hmem
  known := by
    intro k c hmem
    cases hmem
  behind := by
    intro i s c hs
    cases hs

/-- In every run of a tunnel with fresh keys, no key and counter are used for two packets, every
counter is below the limit, no handshake has established two sessions, and from the moment a
session has used up its counters no packet is sealed under its key. -/
theorem run_nonces_unique
    (hrun : Machine.run step
      (Tunn.new staticPrivate peerStaticPublic keepalive index stamper
        (World.start clock secrets pool)) ops = .ok (replies, t, w))
    (hfresh : (t.keyState w).FreshKeys) :
    w.sealed.Nodup ∧ (∀ k c, (k, c) ∈ w.sealed → c < rejectAfterMessages) ∧
      (w.established.map (·.ephemeral)).Nodup ∧
      ∀ ops₀ ops₁ replies₀ t₀ w₀, ops = ops₀ ++ ops₁ →
        Machine.run step
          (Tunn.new staticPrivate peerStaticPublic keepalive index stamper
            (World.start clock secrets pool)) ops₀ = .ok (replies₀, t₀, w₀) →
        ∀ i s, t₀.sessions i = some s → rejectAfterMessages ≤ s.sendingKeyCounter →
          w.sealed.filter (·.1 = s.sendingKey) = w₀.sealed.filter (·.1 = s.sendingKey) := by
  obtain ⟨ls, hpath, -⟩ := run_path hrun
  obtain ⟨howned, hunique⟩ := keyState_of_path hpath hfresh ⟨new_owned, new_noncesUnique⟩
  refine ⟨hunique.nodup, hunique.bounded, (List.nodup_append.mp howned.once).2.1, ?_⟩
  intro ops₀ ops₁ replies₀ t₀ w₀ hops hrun₀ i s hs hexhausted
  subst hops
  obtain ⟨r₀, ⟨t₁, w₁⟩, r₁, hfirst, hrest, -⟩ := Machine.run_append_ok.mp hrun
  cases hrun₀.symm.trans hfirst
  obtain ⟨ls₀, hpath₀, -⟩ := run_path hrun₀
  obtain ⟨ls₁, hpath₁, -⟩ := run_path hrest
  obtain ⟨howned₀, -⟩ :=
    keyState_of_path hpath₀ (hpath₁.freshKeys hfresh) ⟨new_owned, new_noncesUnique⟩
  have hsilent : (t₀.keyState w₀).Exhausted s.sendingKey w₀.sealed := .of_session howned₀ hs hexhausted
  exact (exhausted_of_path hpath₁ hfresh ⟨howned₀, hsilent⟩).2.sealed_eq

theorem run_nonces_unique_responder :
    ∃ replies t w, Machine.run step Sample.rekeyResponder
        [.handleVerifiedPacket Sample.firstInitiation maxPacketSize,
          .encapsulate [1, 2, 3] maxPacketSize, .encapsulate [4, 5] maxPacketSize,
          .handleVerifiedPacket Sample.secondInitiation maxPacketSize,
          .encapsulate [1, 2, 3] maxPacketSize, .encapsulate [4, 5] maxPacketSize] =
        .ok (replies, t, w) ∧
      (t.keyState w).FreshKeys ∧ w.sealed.map (·.2) = [1, 0, 1, 0] ∧ w.sealed.Nodup ∧
      (w.established.map (·.ephemeral)).Nodup := by
  have hcheck : okAnd (fun (_, t, w) => (t.keyState w).FreshKeys ∧ w.sealed.map (·.2) = [1, 0, 1, 0])
      (Machine.run step Sample.rekeyResponder
        [.handleVerifiedPacket Sample.firstInitiation maxPacketSize,
          .encapsulate [1, 2, 3] maxPacketSize, .encapsulate [4, 5] maxPacketSize,
          .handleVerifiedPacket Sample.secondInitiation maxPacketSize,
          .encapsulate [1, 2, 3] maxPacketSize, .encapsulate [4, 5] maxPacketSize]) = true := by
    decide +kernel
  obtain ⟨⟨replies, t, w⟩, hrun, hcheck⟩ := exists_of_okAnd hcheck
  obtain ⟨hfresh, hcounters⟩ := of_decide_eq_true hcheck
  obtain ⟨hnodup, -, hephemerals, -⟩ := run_nonces_unique hrun hfresh
  exact ⟨replies, t, w, hrun, hfresh, hcounters, hnodup, hephemerals⟩

end Tunn

end Tendrilix.Noise
