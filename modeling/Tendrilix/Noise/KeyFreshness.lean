import Tendrilix.Noise.KeyState

/-!
# Every handshake has keys of its own

`FreshKeys` is what is assumed of the random generator and of key derivation in one run: the drawn
ephemeral keys differ, and handshakes with different local ephemeral keys derive different keys.
Under it, no ephemeral key is ever used for two sessions.
-/

namespace Tendrilix.Noise

variable {K : Crypto} {N BYTES : ℕ}

namespace KeyState

structure FreshKeys (a : KeyState K) : Prop where
  draws : ∀ i < a.draws, ∀ j < a.draws, a.secrets i = a.secrets j → i = j
  keys : ∀ e ∈ a.established, ∀ e' ∈ a.established, e.ephemeral ≠ e'.ephemeral →
    e.responseKey ≠ e'.responseKey ∧ e.receivingKey ≠ e'.receivingKey ∧
      e.sendingKey ≠ e'.sendingKey

instance [DecidableEq K.Secret] (a : KeyState K) : Decidable a.FreshKeys :=
  decidable_of_iff
    ((∀ i < a.draws, ∀ j < a.draws, a.secrets i = a.secrets j → i = j) ∧
      ∀ e ∈ a.established, ∀ e' ∈ a.established, e.ephemeral ≠ e'.ephemeral →
        e.responseKey ≠ e'.responseKey ∧ e.receivingKey ≠ e'.receivingKey ∧
          e.sendingKey ≠ e'.sendingKey)
    ⟨fun h => ⟨h.1, h.2⟩, fun h => ⟨h.draws, h.keys⟩⟩

def ephemerals (a : KeyState K) : List K.Secret :=
  a.pending.map (·.ephemeralPrivate) ++ a.established.map (·.ephemeral)

structure Owned (a : KeyState K) : Prop where
  once : a.ephemerals.Nodup
  drawn : ∀ k ∈ a.ephemerals, ∃ i < a.draws, k = a.secrets i
  live : ∀ i s, a.sessions i = some s →
    ∃ e ∈ a.established, e.receivingKey = s.receivingKey ∧ e.sendingKey = s.sendingKey
  distinct : ∀ i j s s', a.sessions i = some s → a.sessions j = some s' →
    s.receivingKey = s'.receivingKey ∨ s.sendingKey = s'.sendingKey → i = j

variable {a a' : KeyState K} {l : Option Packet}

theorem FreshKeys.of_step (step : KeyStep a l a') (h : a'.FreshKeys) : a.FreshKeys := by
  have hdraws : a.draws ≤ a'.draws ∧ a'.secrets = a.secrets ∧ a.established ⊆ a'.established := by
    cases step with
    | initiate => exact ⟨Nat.le_succ _, rfl, List.Subset.refl _⟩
    | respond => exact ⟨Nat.le_succ _, rfl, List.subset_cons_self _ _⟩
    | conclude => exact ⟨le_rfl, rfl, List.subset_cons_self _ _⟩
    | _ => exact ⟨le_rfl, rfl, List.Subset.refl _⟩
  obtain ⟨hle, hsecrets, hsub⟩ := hdraws
  refine ⟨fun i hi j hj heq => ?_, fun e he e' he' => h.keys e (hsub he) e' (hsub he')⟩
  rw [← hsecrets] at heq
  exact h.draws i (hi.trans_le hle) j (hj.trans_le hle) heq

theorem Owned.not_mem_of_draw (h : a.Owned) {n : ℕ} (hfresh : ∀ i < n, ∀ j < n,
    a.secrets i = a.secrets j → i = j) (hn : a.draws < n) : a.secrets a.draws ∉ a.ephemerals := by
  intro hmem
  obtain ⟨i, hi, heq⟩ := h.drawn _ hmem
  have := hfresh a.draws hn i (hi.trans hn) heq
  omega

theorem Owned.rekey {sessions : Fin 3 → Option Session} {sealed : List (Bytes × ℕ)} (h : a.Owned)
    (hsessions : ∀ i s, sessions i = some s → ∃ s₀, a.sessions i = some s₀ ∧
      s.receivingKey = s₀.receivingKey ∧ s.sendingKey = s₀.sendingKey) :
    Owned { a with sessions := sessions, sealed := sealed } where
  once := h.once
  drawn := h.drawn
  live := by
    intro i s hs
    obtain ⟨s₀, hs₀, hr, hk⟩ := hsessions i s hs
    obtain ⟨e, he, her, hek⟩ := h.live i s₀ hs₀
    exact ⟨e, he, her.trans hr.symm, hek.trans hk.symm⟩
  distinct := by
    intro i j s s' hs hs' hkey
    obtain ⟨s₀, hs₀, hr, hk⟩ := hsessions i s hs
    obtain ⟨s₁, hs₁, hr', hk'⟩ := hsessions j s' hs'
    rw [hr, hr', hk, hk'] at hkey
    exact h.distinct i j s₀ s₁ hs₀ hs₁ hkey

theorem update_eq_some {sessions : Fin 3 → Option Session} {i j : Fin 3} {s s' : Session} :
    Function.update sessions i (some s) j = some s' ↔
      j = i ∧ s = s' ∨ j ≠ i ∧ sessions j = some s' := by
  by_cases hij : j = i
  · subst hij
    simp
  · simp [hij]

theorem update_keys {i : Fin 3} {s₀ s₁ : Session} (hs : a.sessions i = some s₀)
    (hr : s₁.receivingKey = s₀.receivingKey) (hk : s₁.sendingKey = s₀.sendingKey) (j : Fin 3)
    (s : Session) (hj : Function.update a.sessions i (some s₁) j = some s) :
    ∃ s₀, a.sessions j = some s₀ ∧ s.receivingKey = s₀.receivingKey ∧
      s.sendingKey = s₀.sendingKey := by
  rcases update_eq_some.mp hj with ⟨rfl, rfl⟩ | ⟨-, hj⟩
  · exact ⟨s₀, hs, hr, hk⟩
  · exact ⟨s, hj, rfl, rfl⟩

theorem Owned.forget {pending : List (HandshakeInitSentState K)} (h : a.Owned) (last : Tai64N)
    (hpending : pending.Sublist a.pending) :
    Owned { a with lastHandshakeTimestamp := last, pending := pending } where
  once := h.once.sublist ((hpending.map _).append_right _)
  drawn := fun k hk => h.drawn k (((hpending.map _).append_right _).subset hk)
  live := h.live
  distinct := h.distinct

theorem Owned.install {pending : List (HandshakeInitSentState K)} {e : Established K}
    {i : Fin 3} {s : Session} {draws : ℕ} {last : Tai64N} {sealed : List (Bytes × ℕ)}
    (h : a.Owned) (hdraws : a.draws ≤ draws)
    (honce : (e.ephemeral :: (pending.map (·.ephemeralPrivate) ++
      a.established.map (·.ephemeral))).Nodup)
    (hpending : ∀ p ∈ pending, p ∈ a.pending)
    (hdrawn : ∃ j < draws, e.ephemeral = a.secrets j)
    (hnew : ∀ e' ∈ a.established, e.receivingKey ≠ e'.receivingKey ∧ e.sendingKey ≠ e'.sendingKey)
    (hr : s.receivingKey = e.receivingKey) (hk : s.sendingKey = e.sendingKey) :
    Owned { a with
      lastHandshakeTimestamp := last
      pending := pending
      sessions := Function.update a.sessions i (some s)
      draws := draws
      sealed := sealed
      established := e :: a.established } := by
  have hother : ∀ j s', a.sessions j = some s' →
      ¬(s.receivingKey = s'.receivingKey ∨ s.sendingKey = s'.sendingKey) := by
    intro j s' hs' hkey
    obtain ⟨e', he', her, hek⟩ := h.live j s' hs'
    rw [hr, hk, ← her, ← hek] at hkey
    rcases hkey with hkey | hkey
    · exact (hnew e' he').1 hkey
    · exact (hnew e' he').2 hkey
  refine ⟨?_, ?_, ?_, ?_⟩
  · exact List.nodup_middle.mpr honce
  · intro k hmem
    have hmem' : k = e.ephemeral ∨ k ∈ a.ephemerals := by
      simp only [ephemerals, List.mem_append, List.map_cons, List.mem_cons, List.mem_map] at hmem ⊢
      rcases hmem with ⟨p, hp, rfl⟩ | rfl | hmem
      · exact .inr (.inl ⟨p, hpending p hp, rfl⟩)
      · exact .inl rfl
      · exact .inr (.inr hmem)
    rcases hmem' with rfl | hmem
    · exact hdrawn
    · obtain ⟨j, hj, heq⟩ := h.drawn k hmem
      exact ⟨j, hj.trans_le hdraws, heq⟩
  · intro j s' hs'
    rcases update_eq_some.mp hs' with ⟨rfl, rfl⟩ | ⟨-, hs'⟩
    · exact ⟨e, List.mem_cons_self, hr.symm, hk.symm⟩
    · obtain ⟨e', he', hkeys⟩ := h.live j s' hs'
      exact ⟨e', List.mem_cons_of_mem _ he', hkeys⟩
  · intro j j' s₁ s₂ hs₁ hs₂ hkey
    rcases update_eq_some.mp hs₁ with ⟨rfl, rfl⟩ | ⟨-, hold₁⟩
    · rcases update_eq_some.mp hs₂ with ⟨rfl, rfl⟩ | ⟨-, hold₂⟩
      · rfl
      · exact absurd hkey (hother j' s₂ hold₂)
    · rcases update_eq_some.mp hs₂ with ⟨rfl, rfl⟩ | ⟨-, hold₂⟩
      · exact absurd (hkey.imp Eq.symm Eq.symm) (hother j s₁ hold₁)
      · exact h.distinct j j' s₁ s₂ hold₁ hold₂ hkey

theorem FreshKeys.new_keys {e : Established K} {established : List (Established K)}
    (h : a'.FreshKeys) (hestablished : a'.established = e :: established)
    (hnew : e.ephemeral ∉ established.map (·.ephemeral)) :
    ∀ e' ∈ established, e.responseKey ≠ e'.responseKey ∧ e.receivingKey ≠ e'.receivingKey ∧
      e.sendingKey ≠ e'.sendingKey := by
  intro e' he'
  apply h.keys e (by simp [hestablished]) e' (by simp [hestablished, he'])
  intro heq
  exact hnew (heq ▸ List.mem_map_of_mem he')

theorem Owned.conclude_once {sent : HandshakeInitSentState K}
    {pending : List (HandshakeInitSentState K)} (h : a.Owned)
    (hpending : a.pending.Perm (sent :: pending)) :
    (sent.ephemeralPrivate :: (pending.map (·.ephemeralPrivate) ++
      a.established.map (·.ephemeral))).Nodup := by
  have hperm := (hpending.map (·.ephemeralPrivate)).append_right (a.established.map (·.ephemeral))
  exact hperm.nodup_iff.mp h.once

theorem Owned.respond_once {pending : List (HandshakeInitSentState K)} (h : a.Owned)
    (hpending : pending.Sublist a.pending) (hnew : a.secrets a.draws ∉ a.ephemerals) :
    (a.secrets a.draws :: (pending.map (·.ephemeralPrivate) ++
      a.established.map (·.ephemeral))).Nodup := by
  have hsub := (hpending.map (·.ephemeralPrivate)).append_right (a.established.map (·.ephemeral))
  exact List.nodup_cons.mpr ⟨fun hmem => hnew (hsub.subset hmem), h.once.sublist hsub⟩

theorem Owned.established_new (step : KeyStep a l a') (hfresh : a'.FreshKeys) (h : a.Owned)
    {e : Established K} (hestablished : a'.established = e :: a.established) :
    ∀ e' ∈ a.established, e.responseKey ≠ e'.responseKey ∧ e.receivingKey ≠ e'.receivingKey ∧
      e.sendingKey ≠ e'.sendingKey := by
  apply hfresh.new_keys hestablished
  cases step with
  | respond =>
    cases hestablished
    have hnew := h.not_mem_of_draw hfresh.draws (Nat.lt_succ_self _)
    exact fun hmem => hnew (List.mem_append_right _ hmem)
  | conclude hpending =>
    cases hestablished
    have honce := (List.nodup_cons.mp (h.conclude_once hpending)).1
    exact fun hmem => honce (List.mem_append_right _ hmem)
  | _ => exact absurd hestablished.symm (List.cons_ne_self _ _)

theorem Owned.step (step : KeyStep a l a') (hfresh : a'.FreshKeys) (h : a.Owned) : a'.Owned := by
  have hkeys {e : Established K} := h.established_new (e := e) step hfresh
  cases step with
  | quiet hlast hpending hsessions =>
    exact (h.forget _ hpending).rekey fun i s hs => ⟨s, hsessions i s hs, rfl, rfl⟩
  | encrypt hs hlt => exact h.rekey (update_keys hs rfl rfl)
  | @initiate sent pending hpending hdrawn =>
    have hnew := h.not_mem_of_draw hfresh.draws (Nat.lt_succ_self _)
    have honce := h.respond_once hpending hnew
    rw [← hdrawn] at honce
    refine ⟨honce, ?_, h.live, h.distinct⟩
    intro k hk
    rcases List.mem_cons.mp hk with rfl | hk
    · exact ⟨a.draws, Nat.lt_succ_self _, hdrawn⟩
    · obtain ⟨j, hj, heq⟩ := (h.forget a.lastHandshakeTimestamp hpending).drawn k hk
      exact ⟨j, hj.trans (Nat.lt_succ_self _), heq⟩
  | respond hopen hafter hpending =>
    have hnew := h.not_mem_of_draw hfresh.draws (Nat.lt_succ_self _)
    exact h.install (Nat.le_succ _) (h.respond_once hpending hnew) (fun p hp => hpending.subset hp)
      ⟨a.draws, Nat.lt_succ_self _, rfl⟩ (fun e' he' => (hkeys rfl e' he').2) rfl rfl
  | @conclude p sent pending keys localIndex hpending hopen =>
    have hmem : sent ∈ a.pending := hpending.symm.subset List.mem_cons_self
    have hdrawn := h.drawn sent.ephemeralPrivate
      (List.mem_append_left _ (List.mem_map_of_mem hmem))
    exact h.install le_rfl (h.conclude_once hpending)
      (fun p hp => hpending.symm.subset (List.mem_cons_of_mem _ hp)) hdrawn
      (fun e' he' => (hkeys rfl e' he').2) rfl rfl
  | receive hs => exact h.rekey (update_keys hs rfl rfl)

end KeyState

theorem Path.freshKeys {t t' : Tunn K} {w w' : World K N BYTES} {ls : List Packet}
    (path : Path t w ls t' w') (h : (t'.keyState w').FreshKeys) : (t.keyState w).FreshKeys := by
  induction path with
  | nil => exact h
  | cons effect rest ih => exact .of_step effect.keyStep (ih h)

/-- An invariant of the steps of keys, together with the packets authenticated so far, holds along
a path. What is assumed of the last state holds of all before it. -/
theorem Path.keyState_invariant {A : KeyState K → Prop} {I : List Packet → KeyState K → Prop}
    (hback : ∀ {a a' : KeyState K} {l : Option Packet}, KeyStep a l a' → A a' → A a)
    (hstep : ∀ {a a' : KeyState K} {l : Option Packet} {past : List Packet}, KeyStep a l a' →
      A a' → I past a → I (past ++ l.toList) a')
    {t t' : Tunn K} {w w' : World K N BYTES} {ls : List Packet} (path : Path t w ls t' w')
    (hassumed : A (t'.keyState w')) (past : List Packet) (hinv : I past (t.keyState w)) :
    I (past ++ ls) (t'.keyState w') := by
  suffices h : (A (t.keyState w) → I past (t.keyState w)) →
      A (t'.keyState w') → I (past ++ ls) (t'.keyState w') from h (fun _ => hinv) hassumed
  clear hassumed hinv
  induction path generalizing past with
  | nil =>
    rw [List.append_nil]
    exact id
  | cons effect rest ih =>
    intro hinv hassumed
    rw [← List.append_assoc]
    apply ih _ _ hassumed
    intro hnext
    exact hstep effect.keyStep hnext (hinv (hback effect.keyStep hnext))

end Tendrilix.Noise
