import Tendrilix.Device.PeerCommands

/-!
# The limits of the fixed builds

The capacity of a peer's table counts nodes, and `n` disjoint prefixes of one family need at least
`2 * n - 1` of them. So a peer gets half of the prefixes that the limit promises. The table of routes
is large enough for that.
-/

namespace Tendrilix

open AllowedIps NetKey TreeOrder Noise

variable {K : Crypto} {N BYTES : ℕ}

/-! ### Disjoint prefixes -/

def Scattered (s : Finset NetKey) : Prop := ∀ k ∈ s, ∀ l ∈ s, k ≠ l → ¬k.Meets l

section Scattered

variable {s : Finset NetKey} {M : ℕ}

theorem Scattered.v4 (h : Scattered s) : IsAntichain (· ≤ ·) (v4s s : Set (Prefix 32)) := by
  intro p hp q hq hne hle
  refine h (.v4 p) (mem_v4s.mp hp) (.v4 q) (mem_v4s.mp hq) (fun heq => hne (NetKey.v4.inj heq)) ?_
  exact meets_v4.mpr (Prefix.meets_iff_le.mpr (.inl hle))

theorem Scattered.v6 (h : Scattered s) : IsAntichain (· ≤ ·) (v6s s : Set (Prefix 128)) := by
  intro p hp q hq hne hle
  refine h (.v6 p) (mem_v6s.mp hp) (.v6 q) (mem_v6s.mp hq) (fun heq => hne (NetKey.v6.inj heq)) ?_
  exact meets_v6.mpr (Prefix.meets_iff_le.mpr (.inl hle))

theorem card_spanned_le_iff {w : ℕ} {t : Finset (Prefix w)} (h : IsAntichain (· ≤ ·) (t : Set (Prefix w)))
    (heven : Even M) (hpos : 0 < M) : (spanned t).card ≤ M ↔ 2 * t.card ≤ M := by
  have hlower := le_card_spanned h
  obtain ⟨m, rfl⟩ := heven
  constructor
  · intro hle
    omega
  · intro hle
    rcases t.eq_empty_or_nonempty with rfl | hne
    · exact card_spanned_empty.trans_le hpos
    · exact (card_spanned_le hne).trans hle

theorem Scattered.nodesNeeded_le_iff (h : Scattered s) (heven : Even M) (hpos : 0 < M) :
    nodesNeeded s ≤ M ↔ 2 * (v4s s).card ≤ M ∧ 2 * (v6s s).card ≤ M := by
  rw [nodesNeeded, max_le_iff, card_spanned_le_iff h.v4 heven hpos, card_spanned_le_iff h.v6 heven hpos]

end Scattered

theorem Profile.limits {profile : Profile} {P M : ℕ} (hP : profile.maxPeers = some P)
    (hM : profile.maxAllowedIpsPerPeer = some M) :
    Even M ∧ 0 < M ∧ nodeLimit profile.maxAllowedIpsPerPeer = M ∧
      nodeLimit profile.peerRoutes = P * M := by
  cases profile <;> cases hP <;> cases hM <;> decide

namespace PeerState

variable {s : PeerState K} {g : IndexGenerator} {key : PublicKey} {nets : List NetKey}

theorem Indexed.length_le (h : s.Indexed g) : s.peersByIdx.keys.length ≤ s.peers.keys.length := by
  have hsubset : s.peersByIdx.keys.map some ⊆
      s.peers.keys.map fun key => (s.peerByKey key).map (·.index) := by
    intro i hi
    obtain ⟨index, hindex, rfl⟩ := List.mem_map.mp hi
    obtain ⟨key, hkey⟩ := Option.isSome_iff_exists.mp (AList.lookup_isSome.mpr hindex)
    obtain ⟨peer, hpeer, rfl⟩ := (h.byIdx index key).mp hkey
    refine List.mem_map.mpr ⟨key, Bounded.mem_of_lookup hpeer, ?_⟩
    rw [hpeer]
    rfl
  have hnodup := s.peersByIdx.keys_nodup.map (Option.some_injective ℕ)
  have hlength := (hnodup.subperm hsubset).length_le
  rwa [List.length_map, List.length_map] at hlength

theorem Indexed.isOpen (h : s.Indexed g) {profile : Profile} {P : ℕ} (hP : profile.maxPeers = some P)
    (hfew : s.peers.keys.length < P) : s.Open profile := by
  have hle := h.length_le
  rw [Open, hP]
  constructor
  · simpa [Bounded.isFull] using hfew
  · simpa [Bounded.isFull] using hle.trans_lt hfew

def Filled (profile : Profile) (_ : PublicKey) (peer : Peer K) : Prop :=
  ∃ t, TableSpans profile.maxAllowedIpsPerPeer peer.allowedIps t

theorem Routed.scattered (h : s.Routed) {key : PublicKey} {peer : Peer K}
    (hpeer : s.peerByKey key = some peer) : Scattered peer.allowedIps.prefixes.toFinset := by
  intro k hk l hl hne hmeet
  rw [List.mem_toFinset] at hk hl
  exact hne (h.eq_of_meets hpeer hpeer hk hl hmeet).1

theorem Admits.scattered (h : s.Admits key nets) : Scattered nets.toFinset := by
  intro k hk l hl
  rw [List.mem_toFinset] at hk hl
  exact h.disjoint k hk l hl

theorem Routed.card_le (h : s.Routed) {profile : Profile} {P M : ℕ}
    (hP : profile.maxPeers = some P) (hM : profile.maxAllowedIpsPerPeer = some M)
    (hfilled : s.All (Filled profile)) {key : PublicKey} {peer : Peer K}
    (hpeer : s.peerByKey key = some peer) :
    2 * (v4s peer.allowedIps.prefixes.toFinset).card ≤ M ∧
      2 * (v6s peer.allowedIps.prefixes.toFinset).card ≤ M := by
  obtain ⟨t, hspans⟩ := hfilled key peer hpeer
  obtain ⟨heven, hpos, hlimit, -⟩ := Profile.limits hP hM
  have ht : t = peer.allowedIps.prefixes.toFinset := by
    ext n
    rw [List.mem_toFinset, hspans.mem_prefixes]
  have hneeded := hspans.nodesNeeded_le
  rw [hlimit, ht] at hneeded
  exact ((h.scattered hpeer).nodesNeeded_le_iff heven hpos).mp hneeded

theorem prefixesWith_subset (s : PeerState K) (key : PublicKey) (nets : List NetKey) :
    s.prefixesWith key nets ⊆ nets.toFinset ∪ s.peers.keys.toFinset.biUnion fun k =>
      ((s.peerByKey k).elim [] fun peer => peer.allowedIps.prefixes).toFinset := by
  intro n hn
  rw [Finset.mem_union, List.mem_toFinset, Finset.mem_biUnion]
  rcases mem_prefixesWith.mp hn with hn | ⟨other, peer, -, hpeer, hn⟩
  · exact .inl hn
  · refine .inr ⟨other, List.mem_toFinset.mpr (Bounded.mem_of_lookup hpeer), ?_⟩
    rw [hpeer]
    exact List.mem_toFinset.mpr hn

theorem card_union_biUnion_le {α β : Type} [DecidableEq β] {a : Finset β} {b : Finset α}
    {f : α → Finset β} {m : ℕ} (ha : a.card ≤ m) (hf : ∀ x ∈ b, (f x).card ≤ m) :
    (a ∪ b.biUnion f).card ≤ (b.card + 1) * m := by
  calc (a ∪ b.biUnion f).card ≤ a.card + (b.biUnion f).card := Finset.card_union_le _ _
    _ ≤ m + b.card * m := Nat.add_le_add ha (Finset.card_biUnion_le_card_mul b f m hf)
    _ = (b.card + 1) * m := by ring

theorem Routed.routes_fit (h : s.Routed) {profile : Profile} {P M : ℕ}
    (hP : profile.maxPeers = some P) (hM : profile.maxAllowedIpsPerPeer = some M)
    (hfilled : s.All (Filled profile)) (hfew : s.peers.keys.length < P)
    (hown : 2 * (v4s nets.toFinset).card ≤ M ∧ 2 * (v6s nets.toFinset).card ≤ M) :
    2 * (v4s (s.prefixesWith key nets)).card ≤ P * M ∧
      2 * (v6s (s.prefixesWith key nets)).card ≤ P * M := by
  obtain ⟨⟨m, rfl⟩, -⟩ := Profile.limits hP hM
  have hkeys : (s.peers.keys.toFinset.card + 1) * m ≤ P * m :=
    Nat.mul_le_mul_right m ((List.toFinset_card_le _).trans_lt hfew)
  have hpeer : ∀ k ∈ s.peers.keys.toFinset, ∃ peer, s.peerByKey k = some peer := fun k hk =>
    Option.isSome_iff_exists.mp (AList.lookup_isSome.mpr (List.mem_toFinset.mp hk))
  have hsubset := s.prefixesWith_subset key nets
  have hdouble : P * (m + m) = 2 * (P * m) := by ring
  rw [hdouble]
  refine ⟨Nat.mul_le_mul_left 2 ?_, Nat.mul_le_mul_left 2 ?_⟩
  · refine ((Finset.card_le_card (v4s_mono hsubset)).trans ?_).trans hkeys
    rw [v4s_union, v4s_biUnion]
    refine card_union_biUnion_le (by omega) fun k hk => ?_
    obtain ⟨peer, hpeer⟩ := hpeer k hk
    have hle := (h.card_le hP hM hfilled hpeer).1
    rw [hpeer, Option.elim_some]
    omega
  · refine ((Finset.card_le_card (v6s_mono hsubset)).trans ?_).trans hkeys
    rw [v6s_union, v6s_biUnion]
    refine card_union_biUnion_le (by omega) fun k hk => ?_
    obtain ⟨peer, hpeer⟩ := hpeer k hk
    have hle := (h.card_le hP hM hfilled hpeer).2
    rw [hpeer, Option.elim_some]
    omega

theorem Routed.room_iff (h : s.Routed) {profile : Profile} {P M : ℕ}
    (hP : profile.maxPeers = some P) (hM : profile.maxAllowedIpsPerPeer = some M)
    (hfilled : s.All (Filled profile)) (hfew : s.peers.keys.length < P) {config : PeerConfig}
    (hadmits : s.Admits config.publicKey config.prefixes) :
    s.Room profile config ↔ 2 * (v4s config.prefixes.toFinset).card ≤ M ∧
      2 * (v6s config.prefixes.toFinset).card ≤ M := by
  obtain ⟨heven, hpos, hlimit, hroutes⟩ := Profile.limits hP hM
  rw [← hadmits.scattered.nodesNeeded_le_iff heven hpos]
  constructor
  · intro hroom
    rw [← hlimit]
    exact hroom.own
  · intro hown
    refine ⟨hlimit.symm ▸ hown, ?_⟩
    rw [hroutes]
    have hscattered : Scattered (s.prefixesWith config.publicKey config.prefixes) := by
      intro k hk l hl hne hmeet
      rcases mem_prefixesWith.mp hk with hk | ⟨other, p, hother, hp, hk⟩ <;>
        rcases mem_prefixesWith.mp hl with hl | ⟨other', q, hother', hq, hl⟩
      · exact hadmits.disjoint k hk l hl hne hmeet
      · exact hadmits.others other' q hother' hq k hk l hl hmeet
      · exact hadmits.others other p hother hp l hl k hk hmeet.symm
      · exact hne (h.eq_of_meets hp hq hk hl hmeet).1
    refine (hscattered.nodesNeeded_le_iff (heven.mul_left P) (Nat.mul_pos (by omega) hpos)).mpr ?_
    exact h.routes_fit hP hM hfilled hfew
      ((hadmits.scattered.nodesNeeded_le_iff heven hpos).mp hown)

end PeerState

namespace Device

open PeerState

variable {d d' : Device K N BYTES} {profile : Profile}

theorem filled_inherited (profile : Profile) :
    Inherited (K := K) profile N BYTES (Filled profile) := by
  have hslice : ∀ (allowedIps : List IpNet) (table : AllowedIPs Unit),
      Peer.allowedIpsFromSlice profile allowedIps = .ok (.ok table) →
        ∃ t, TableSpans profile.maxAllowedIpsPerPeer table t := by
    intro allowedIps table hok
    rcases Peer.allowedIpsFromSlice_cases profile allowedIps with ⟨table', hok', hspans⟩ | ⟨-, hfull⟩
    · cases hok.symm.trans hok'
      exact ⟨_, hspans⟩
    · cases hok.symm.trans hfull
  constructor
  · intro config _ _ allowedIps _ _ _ _ hok _
    exact hslice config.allowedIps allowedIps hok
  · intro config allowedIps _ hok _
    exact hslice config.allowedIps allowedIps hok

theorem Move.filled (h : Move True d d') (hinv : d.peers.All (Filled profile)) :
    d'.peers.All (Filled profile) := by
  cases h with
  | read | count => exact hinv
  | @tunnel key peer t w configured call =>
    have hfilled : Filled profile key { peer with tunnel := t } := hinv key peer configured
    exact hinv.setPeer (Bounded.mem_of_lookup configured) hfilled
  | @endpoint key peer configured addr allowed =>
    have hfilled : Filled profile key { peer with endpoint := some addr } := hinv key peer configured
    exact hinv.setPeer (Bounded.mem_of_lookup configured) hfilled

theorem handlePeerUpdate_profile {c : Command} {completion : CommandCompletion}
    (h : d.handlePeerUpdate c = .ok (completion, d')) : d'.profile = d.profile := by
  cases handlePeerUpdate_cases h <;> rfl

theorem step_profile {e : Event} {outputs : List Output} (h : d.step e = .ok (outputs, d')) :
    d'.profile = d.profile := by
  rcases step_cases h with ⟨c, completion, -, hcall, -⟩ | ⟨order, -, rfl⟩ | hmoves
  · exact handlePeerUpdate_profile hcall
  · rfl
  · refine hmoves.invariant (I := fun d' => d'.profile = d.profile) (fun hmove hinv => ?_) rfl
    cases hmove <;> exact hinv

theorem new_profile {config : Config K} {resources : Resources} {draws : Draws} {clock : ℕ → ℕ}
    {secrets : ℕ → K.Secret} (h : new profile config resources draws clock secrets = .ok (.ok d)) :
    d.profile = profile :=
  (new_invariant (I := fun _ _ _ => True) h (fun _ _ => trivial) trivial).1

theorem Reachable.filled (h : d.Reachable) : d.peers.All (Filled d.profile) := by
  obtain ⟨profile, config, resources, draws, clock, secrets, start, events, outputs, hnew, hrun⟩ := h
  have hinv : d.profile = profile ∧ d.peers.All (Filled profile) := by
    refine Machine.run_invariant (I := fun d => d.profile = profile ∧ d.peers.All (Filled profile))
      (fun d e outputs d' _ hinv hstep => ?_) hrun
      ⟨new_profile hnew, new_all (filled_inherited profile) hnew⟩
    obtain ⟨hprofile, hfilled⟩ := hinv
    refine ⟨(step_profile hstep).trans hprofile, ?_⟩
    exact step_all (hprofile ▸ filled_inherited profile) Move.filled hstep hfilled
  rw [hinv.1]
  exact hinv.2

theorem handlePeerUpdate_seeded {c : Command} {completion : CommandCompletion}
    (hd : d.indexGenerator.lfsr ≠ 0) (h : d.handlePeerUpdate c = .ok (completion, d')) :
    d'.indexGenerator.lfsr ≠ 0 := by
  cases handlePeerUpdate_cases h with
  | none | unknown | list | update | remove | get => exact hd
  | add call => exact addPeerToState_seeded hd call

theorem step_seeded {e : Event} {outputs : List Output} (hd : d.indexGenerator.lfsr ≠ 0)
    (h : d.step e = .ok (outputs, d')) : d'.indexGenerator.lfsr ≠ 0 := by
  rcases step_cases h with ⟨c, completion, -, hcall, -⟩ | ⟨order, -, rfl⟩ | hmoves
  · exact handlePeerUpdate_seeded hd hcall
  · exact hd
  · refine hmoves.invariant (I := fun d' => d'.indexGenerator.lfsr ≠ 0) (fun hmove hinv => ?_) hd
    cases hmove <;> exact hinv

theorem Reachable.seeded (h : d.Reachable) : d.indexGenerator.lfsr ≠ 0 := by
  obtain ⟨profile, config, resources, draws, clock, secrets, start, events, outputs, hnew, hrun⟩ := h
  obtain ⟨-, -, -, hstart⟩ := new_invariant (I := fun _ g _ => g.lfsr ≠ 0) hnew
    (fun hcall hg => addPeerToState_seeded hg hcall) (IndexGenerator.initializeWith_seeded _ _ _)
  exact Machine.run_invariant (I := fun d => d.indexGenerator.lfsr ≠ 0)
    (fun _ _ _ _ _ hinv hstep => step_seeded hinv hstep) hrun hstart

/-- In a fixed build with a free slot, a new peer with disjoint prefixes is added exactly when there is
an index for it and each address family has at most half of the prefixes that the limit allows. With
an index but more prefixes the command fails for want of capacity. -/
theorem Reachable.add_iff_half (h : d.Reachable) {P M : ℕ} (hP : d.profile.maxPeers = some P)
    (hM : d.profile.maxAllowedIpsPerPeer = some M) (hfew : d.peers.peers.keys.length < P)
    (config : PeerConfig) (hnew : d.peers.peerByKey config.publicKey = none)
    (hadmits : d.peers.Admits config.publicKey config.prefixes) :
    ((∃ d', d.handlePeerUpdate (.add config) = .ok (.ok .none, d')) ↔
      d.indexGenerator.remaining ≠ 0 ∧ 2 * (v4s config.prefixes.toFinset).card ≤ M ∧
        2 * (v6s config.prefixes.toFinset).card ≤ M) ∧
    ((∃ d', d.handlePeerUpdate (.add config) = .ok (.error .capacity, d')) ↔
      d.indexGenerator.remaining ≠ 0 ∧ ¬(2 * (v4s config.prefixes.toFinset).card ≤ M ∧
        2 * (v6s config.prefixes.toFinset).card ≤ M)) := by
  by_cases hleft : d.indexGenerator.remaining = 0
  · have hcall := handlePeerUpdate_add_exhausted h.seeded hnew hleft
    rw [hcall]
    simp [hleft]
  obtain ⟨index, g', hnext⟩ := IndexGenerator.exists_newIndex h.seeded hleft
  obtain ⟨r, s', g₁, w₁, hcall, hverdict⟩ := addPeerToState_verdict d.profile h.tables.routed config
    d.privateKey hnext d.stamper d.world
  have hrun : d.handlePeerUpdate (.add config) = .ok (r.map fun _ => .none, _) :=
    bind_ok_iff.mpr ⟨_, hcall, rfl⟩
  have hrefusal : d.peers.addRefusal config.publicKey = none := by
    rw [addRefusal, hnew]
    rfl
  have hroom := h.tables.routed.room_iff hP hM h.filled hfew hadmits
  rw [← hroom, hrun]
  cases hverdict with
  | refused hkey => cases hkey.symm.trans hrefusal
  | ok _ _ hfits => simp [hleft, hfits, Except.map]
  | overlap _ htaken => exact absurd hadmits htaken
  | full _ hexceeds =>
    have hnot : ¬d.peers.Room d.profile config := fun hfits =>
      hexceeds hfits (h.tables.indexed.isOpen hP hfew)
    simp [hleft, hnot, Except.map]

def mixedConfig : PeerConfig :=
  Sample.peerConfig 5 [Sample.net 0xc0a80000 24 Sample.len_lan_le,
    Sample.net 0xac100000 12 (by decide), .v6 ⟨0xfd000000000000000000000000000000#128, 64, by decide⟩,
    .v6 ⟨0xfd010000000000000000000000000000#128, 32, by decide⟩] none

theorem Reachable.add_iff_half_mixed : ∃ d d' : Device Crypto.sample 8 8192, d.Reachable ∧
    d.profile = .medium ∧ d.peers.peerKeys = [Sample.key 7] ∧
    d.handlePeerUpdate (.add mixedConfig) = .ok (.ok .none, d') := by
  have hcheck : okAnd (okAnd fun d : Device Crypto.sample 8 8192 => d.profile = .medium ∧
      d.peers.peerKeys = [Sample.key 7] ∧ d.peers.peerByKey mixedConfig.publicKey = none ∧
      d.peers.Admits mixedConfig.publicKey mixedConfig.prefixes ∧ d.indexGenerator.remaining ≠ 0)
      (new .medium (Sample.deviceConfig 1 [Sample.peerConfig 7 [Sample.net 0x0a000000 16 (by decide),
        .v6 ⟨0xfd020000000000000000000000000000#128, 48, by decide⟩] none]) Sample.resources Sample.draws
        Sample.clock Sample.secrets) = true := by decide +kernel
  obtain ⟨r, hnew, hstarted⟩ := exists_of_okAnd hcheck
  obtain ⟨d, rfl, hp⟩ := exists_of_okAnd hstarted
  obtain ⟨hprofile, hkeys, habsent, hadmits, hleft⟩ := of_decide_eq_true hp
  have hreach : d.Reachable := ⟨_, _, _, _, _, _, d, [], [], hnew, rfl⟩
  have hfew : d.peers.peers.keys.length < 16 := by
    change d.peers.peerKeys.length < 16
    rw [hkeys]
    decide
  have hhalf : 2 * (v4s mixedConfig.prefixes.toFinset).card ≤ 4 ∧
      2 * (v6s mixedConfig.prefixes.toFinset).card ≤ 4 := by decide +kernel
  obtain ⟨d', hcall⟩ := (hreach.add_iff_half (by rw [hprofile]; rfl) (by rw [hprofile]; rfl) hfew
    mixedConfig habsent hadmits).1.mpr ⟨hleft, hhalf⟩
  exact ⟨d, d', hreach, hprofile, hkeys, hcall⟩

def pairConfig : PeerConfig :=
  Sample.peerConfig 5 [Sample.net 0xc0a80000 24 Sample.len_lan_le,
    Sample.net 0x0a000000 16 (by decide)] none

/-- The two prefixes part at the root of the trie, so they need three nodes, and the peer's table has
two. -/
theorem pair_refused : ∃ d : Device Crypto.sample 8 1536, d.Reachable ∧
    d.profile.maxPeers = some 4 ∧ d.profile.maxAllowedIpsPerPeer = some 2 ∧
    d.peers.peers.keys.length < 4 ∧ (∃ x, d.indexGenerator.newIndex = .ok x) ∧
    d.peers.peerByKey pairConfig.publicKey = none ∧ pairConfig.allowedIps.length = 2 ∧
    d.peers.Admits pairConfig.publicKey pairConfig.prefixes ∧
    ∃ d', d.handlePeerUpdate (.add pairConfig) = .ok (.error .capacity, d') := by
  have hcheck : okAnd (okAnd fun d : Device Crypto.sample 8 1536 => d.profile = .tiny ∧
      d.peers.peers.keys.length < 4 ∧ d.peers.peerByKey pairConfig.publicKey = none ∧
      d.peers.Admits pairConfig.publicKey pairConfig.prefixes ∧
      okAnd (fun _ => true) d.indexGenerator.newIndex ∧
      okAnd (fun x => x.1 = .error .capacity) (d.handlePeerUpdate (.add pairConfig)))
      (new .tiny (Sample.deviceConfig 1 []) Sample.resources Sample.draws Sample.clock
        Sample.secrets) = true := by decide +kernel
  obtain ⟨r, hnew, hstarted⟩ := exists_of_okAnd hcheck
  obtain ⟨d, rfl, hp⟩ := exists_of_okAnd hstarted
  obtain ⟨hprofile, hfew, habsent, hadmits, hnext, hcall⟩ := of_decide_eq_true hp
  obtain ⟨x, hnext, -⟩ := exists_of_okAnd hnext
  obtain ⟨⟨answer, d'⟩, hcall, hanswer⟩ := exists_of_okAnd hcall
  obtain rfl : answer = .error .capacity := of_decide_eq_true hanswer
  refine ⟨d, ⟨_, _, _, _, _, _, d, [], [], hnew, rfl⟩, ?_, ?_, hfew, ⟨x, hnext⟩, habsent, rfl, hadmits,
    d', hcall⟩
  · rw [hprofile]
    rfl
  · rw [hprofile]
    rfl

end Device

end Tendrilix
