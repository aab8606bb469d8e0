import Tendrilix.Device.Commands

/-!
# The three tables of peers agree

In every run, the table of indexes and the table of routes are those of the configured peers.
-/

namespace Tendrilix

open Noise

variable {K : Crypto} {N BYTES : ℕ}

namespace IndexGenerator

variable {g g' : IndexGenerator} {index n : ℕ}

theorem indexes_succ (h : g.newIndex = .ok (index, g')) (n : ℕ) :
    g.indexes (n + 1) = index :: g'.indexes n := by
  rw [indexes, h]

theorem mem_indexes_one (h : g.newIndex = .ok (index, g')) : index ∈ g.indexes 1 := by
  rw [indexes_succ h]
  exact List.mem_cons_self

theorem not_mem_indexes (h : g.newIndex = .ok (index, g')) (n : ℕ) : index ∉ g'.indexes n := by
  have hnodup := g.indexes_nodup (n + 1)
  rw [indexes_succ h, List.nodup_cons] at hnodup
  exact hnodup.1

theorem mem_indexes_of_next {i : ℕ} (h : g.newIndex = .ok (index, g'))
    (hi : i ∈ g'.indexes n) : i ∈ g.indexes (n + 1) := by
  rw [indexes_succ h]
  exact List.mem_cons_of_mem _ hi

end IndexGenerator

namespace PeerState

structure Routed (s : PeerState K) : Prop where
  peers : ∀ key peer, s.peerByKey key = some peer → ∃ m, peer.allowedIps.Refines m
  routes : ∃ m, s.peersByIp.Refines m ∧ m.Disjoint ∧
    ∀ n key, m n = some key ↔ ∃ peer, s.peerByKey key = some peer ∧ peer.allowedIps.Has () n

structure Indexed (s : PeerState K) (g : IndexGenerator) : Prop where
  byIdx : ∀ index key, s.peersByIdx.lookup index = some key ↔
    ∃ peer, s.peerByKey key = some peer ∧ peer.index = index
  fresh : ∀ key peer n, s.peerByKey key = some peer → peer.index ∉ g.indexes n

theorem new_routed : (new : PeerState K).Routed := by
  refine ⟨fun key peer h => ?_, RouteMap.empty, AllowedIPs.new_refines, nofun, fun n key => ?_⟩
  · cases h
  · refine ⟨nofun, ?_⟩
    rintro ⟨peer, h, -⟩
    cases h

theorem new_indexed (g : IndexGenerator) : (new : PeerState K).Indexed g := by
  refine ⟨fun index key => ⟨nofun, ?_⟩, fun key peer n h => nomatch h⟩
  rintro ⟨peer, h, -⟩
  cases h

variable {s s' : PeerState K} {g g' : IndexGenerator}

def SameBy {β : Type} (f : Peer K → β) (s s' : PeerState K) : Prop :=
  ∀ key, (s'.peerByKey key).map f = (s.peerByKey key).map f

section SameBy

variable {β : Type} {f : Peer K → β}

theorem SameBy.symm (h : SameBy f s s') : SameBy f s' s := fun key => (h key).symm

theorem SameBy.peer (h : SameBy f s s') {key : PublicKey} {peer : Peer K}
    (hpeer : s.peerByKey key = some peer) :
    ∃ peer', s'.peerByKey key = some peer' ∧ f peer' = f peer := by
  have hkey := h key
  rwa [hpeer, Option.map_some, Option.map_eq_some_iff] at hkey

theorem SameBy.setPeer {key : PublicKey} {peer : Peer K} (peer' : Peer K)
    (hpeer : s.peerByKey key = some peer) (hsame : f peer' = f peer) :
    SameBy f s (s.setPeer key peer') := by
  intro k
  by_cases hk : k = key
  · subst hk
    have hself : (s.setPeer k peer').peerByKey k = some peer' :=
      Bounded.lookup_replace_self _ (Bounded.mem_of_lookup hpeer)
    rw [hself, hpeer, Option.map_some, Option.map_some, hsame]
  · have hother : (s.setPeer key peer').peerByKey k = s.peerByKey k :=
      Bounded.lookup_replace_ne _ hk
    rw [hother]

end SameBy

theorem Routed.of_same (h : s.Routed) (hsame : SameBy (·.allowedIps) s s')
    (hip : s'.peersByIp = s.peersByIp) : s'.Routed := by
  obtain ⟨m, href, hdisjoint, hm⟩ := h.routes
  refine ⟨fun key peer hpeer => ?_, m, hip ▸ href, hdisjoint, fun n key => ?_⟩
  · obtain ⟨old, hold, hips⟩ := hsame.symm.peer hpeer
    rw [← hips]
    exact h.peers key old hold
  · rw [hm n key]
    constructor
    · rintro ⟨peer, hpeer, hhas⟩
      obtain ⟨peer', hpeer', hips⟩ := hsame.peer hpeer
      exact ⟨peer', hpeer', hips ▸ hhas⟩
    · rintro ⟨peer, hpeer, hhas⟩
      obtain ⟨old, hold, hips⟩ := hsame.symm.peer hpeer
      exact ⟨old, hold, hips ▸ hhas⟩

theorem Indexed.of_same (h : s.Indexed g) (hsame : SameBy (·.index) s s')
    (hidx : s'.peersByIdx = s.peersByIdx) : s'.Indexed g := by
  refine ⟨fun index key => ?_, fun key peer n hpeer => ?_⟩
  · rw [hidx, h.byIdx]
    constructor
    · rintro ⟨peer, hpeer, rfl⟩
      exact hsame.peer hpeer
    · rintro ⟨peer, hpeer, rfl⟩
      exact hsame.symm.peer hpeer
  · obtain ⟨old, hold, hindex⟩ := hsame.symm.peer hpeer
    rw [← hindex]
    exact h.fresh key old n hold

theorem Indexed.advance (h : s.Indexed g) {index : ℕ} (hnext : g.newIndex = .ok (index, g')) :
    s.Indexed g' :=
  ⟨h.byIdx, fun key peer n hpeer hmem =>
    h.fresh key peer (n + 1) hpeer (IndexGenerator.mem_indexes_of_next hnext hmem)⟩

theorem Routed.rebuilt (h : s.Routed) {profile : Profile} {key : PublicKey}
    {allowedIps : AllowedIPs Unit} {peersByIp : AllowedIPs PublicKey}
    (hips : ∃ m, allowedIps.Refines m)
    (hrebuilt : s.rebuiltPeersByIpWith profile key allowedIps = .ok (.ok peersByIp))
    (hip : s'.peersByIp = peersByIp)
    (hnew : ∃ peer, s'.peerByKey key = some peer ∧ peer.allowedIps = allowedIps)
    (hold : ∀ other, other ≠ key → s'.peerByKey other = s.peerByKey other) : s'.Routed := by
  obtain ⟨peer, hpeer, rfl⟩ := hnew
  have hroutes : ∀ x ∈ s.routesWith key peer.allowedIps, ∃ m, x.2.Refines m := by
    rintro ⟨k, table⟩ hx
    rcases mem_routesWith.mp hx with ⟨-, rfl⟩ | ⟨-, old, hlookup, rfl⟩
    · exact hips
    · exact h.peers k old hlookup
  obtain ⟨r, hr, hr'⟩ := routePeers_spec profile (s.routesWith key peer.allowedIps) hroutes
    AllowedIPs.new_refines (fun k l d e hk => nomatch hk)
  cases (Except.ok.inj (hr.symm.trans hrebuilt))
  obtain ⟨m, href, hdisjoint, hm⟩ := hr' peersByIp rfl
  refine ⟨fun k p hp => ?_, m, hip ▸ href, hdisjoint, fun n k => ?_⟩
  · by_cases hk : k = key
    · subst hk
      cases hpeer.symm.trans hp
      exact hips
    · exact h.peers k p ((hold k hk).symm.trans hp)
  · rw [hm n k]
    constructor
    · rintro (hempty | ⟨table, hmem, hhas⟩)
      · cases hempty
      · rcases mem_routesWith.mp hmem with ⟨rfl, rfl⟩ | ⟨hk, old, hlookup, rfl⟩
        · exact ⟨peer, hpeer, hhas⟩
        · exact ⟨old, (hold k hk).trans hlookup, hhas⟩
    · rintro ⟨p, hp, hhas⟩
      refine .inr ⟨p.allowedIps, mem_routesWith.mpr ?_, hhas⟩
      by_cases hk : k = key
      · subst hk
        cases hpeer.symm.trans hp
        exact .inl ⟨rfl, rfl⟩
      · exact .inr ⟨hk, p, (hold k hk).symm.trans hp, rfl⟩

theorem Routed.erase (h : s.Routed) (key : PublicKey) (peersByIdx : Bounded.Map ℕ PublicKey) :
    Routed
      { peers := s.peers.erase key
        peersByIp := s.peersByIp.remove (· = key)
        peersByIdx := peersByIdx } := by
  obtain ⟨m, href, hdisjoint, hm⟩ := h.routes
  refine ⟨fun k peer hpeer => ?_, m.remove (· = key), AllowedIPs.remove_refines href _,
    hdisjoint.remove _, fun n k => ?_⟩
  · exact h.peers k peer (Bounded.lookup_erase_eq_some_iff.mp hpeer).2
  · rw [RouteMap.remove_eq_some_iff, hm, decide_eq_false_iff_not]
    constructor
    · rintro ⟨⟨peer, hpeer, hhas⟩, hk⟩
      exact ⟨peer, Bounded.lookup_erase_eq_some_iff.mpr ⟨hk, hpeer⟩, hhas⟩
    · rintro ⟨peer, hpeer, hhas⟩
      obtain ⟨hk, hpeer⟩ := Bounded.lookup_erase_eq_some_iff.mp hpeer
      exact ⟨⟨peer, hpeer, hhas⟩, hk⟩

theorem Indexed.erase (h : s.Indexed g) {key : PublicKey} {peer : Peer K}
    (hpeer : s.peerByKey key = some peer) (peersByIp : AllowedIPs PublicKey) :
    Indexed
      { peers := s.peers.erase key
        peersByIp := peersByIp
        peersByIdx := s.peersByIdx.erase peer.index } g := by
  refine ⟨fun index k => ?_, fun k p n hp =>
    h.fresh k p n (Bounded.lookup_erase_eq_some_iff.mp hp).2⟩
  have hlookup : ∀ p, peerByKey
      { peers := s.peers.erase key, peersByIp := peersByIp,
        peersByIdx := s.peersByIdx.erase peer.index } k = some p ↔
      k ≠ key ∧ s.peerByKey k = some p := fun p => Bounded.lookup_erase_eq_some_iff
  simp only [hlookup]
  rw [Bounded.lookup_erase_eq_some_iff, h.byIdx]
  constructor
  · rintro ⟨hne, p, hp, rfl⟩
    refine ⟨p, ⟨?_, hp⟩, rfl⟩
    rintro rfl
    cases hpeer.symm.trans hp
    exact hne rfl
  · rintro ⟨p, ⟨hk, hp⟩, rfl⟩
    refine ⟨fun heq => hk ?_, p, hp, rfl⟩
    have hown := (h.byIdx peer.index key).mpr ⟨peer, hpeer, rfl⟩
    have hother := (h.byIdx peer.index k).mpr ⟨p, hp, heq⟩
    exact Option.some.inj (hother.symm.trans hown)

theorem Indexed.insert (h : s.Indexed g) {key : PublicKey} (peer : Peer K)
    (hnew : s.peerByKey key = none) (hnext : g.newIndex = .ok (peer.index, g'))
    (peersByIp : AllowedIPs PublicKey) :
    Indexed
      { peers := s.peers.insert key peer
        peersByIp := peersByIp
        peersByIdx := s.peersByIdx.insert peer.index key } g' := by
  have hlookup : ∀ k p, peerByKey
      { peers := s.peers.insert key peer, peersByIp := peersByIp,
        peersByIdx := s.peersByIdx.insert peer.index key } k = some p ↔
      (k = key ∧ p = peer) ∨ (k ≠ key ∧ s.peerByKey k = some p) :=
    fun k p => Bounded.lookup_insert_eq_some_iff
  have hfresh : ∀ k p, s.peerByKey k = some p → p.index ≠ peer.index := fun k p hp heq =>
    h.fresh k p 1 hp (heq ▸ IndexGenerator.mem_indexes_one hnext)
  refine ⟨fun index k => ?_, fun k p n hp => ?_⟩
  · simp only [hlookup]
    rw [Bounded.lookup_insert_eq_some_iff, h.byIdx]
    constructor
    · rintro (⟨rfl, rfl⟩ | ⟨hne, p, hp, rfl⟩)
      · exact ⟨peer, .inl ⟨rfl, rfl⟩, rfl⟩
      · refine ⟨p, .inr ⟨?_, hp⟩, rfl⟩
        rintro rfl
        exact nomatch hnew.symm.trans hp
    · rintro ⟨p, ⟨rfl, rfl⟩ | ⟨hk, hp⟩, rfl⟩
      · exact .inl ⟨rfl, rfl⟩
      · exact .inr ⟨hfresh k p hp, p, hp, rfl⟩
  · rcases (hlookup k p).mp hp with ⟨rfl, rfl⟩ | ⟨-, hp⟩
    · exact IndexGenerator.not_mem_indexes hnext n
    · exact (h.advance hnext).fresh k p n hp

/-- What a caller can see of the three tables. -/
structure Consistent (s : PeerState K) : Prop where
  byIdx : ∀ index key, s.peersByIdx.lookup index = some key ↔
    ∃ peer, s.peerByKey key = some peer ∧ peer.index = index
  routes : ∃ items : List (PublicKey × NetKey),
    s.peersByIp.iter = .ok (items.map fun x => (x.1, x.2.toNet)) ∧
    (∀ key net, (key, net) ∈ items ↔ ∃ peer nets, s.peerByKey key = some peer ∧
      peer.allowedIps.iter = .ok nets ∧ ((), net.toNet) ∈ nets) ∧
    (items.map Prod.snd).Nodup ∧
    ∀ x ∈ items, ∀ y ∈ items, x ≠ y → ∀ a, ¬ (x.2.Contains a ∧ y.2.Contains a)
  find : ∀ a, ∃ r, s.peersByIp.find a = .ok r ∧ ∀ key, r = some key ↔
    ∃ peer, s.peerByKey key = some peer ∧ peer.isAllowedIp a = .ok true

theorem has_iff_iter {t : AllowedIPs Unit} {m : RouteMap Unit} (h : t.Refines m) {net : NetKey} :
    t.Has () net ↔ ∃ nets, t.iter = .ok nets ∧ ((), net.toNet) ∈ nets := by
  obtain ⟨items, hiter, -, hmem⟩ := AllowedIPs.iter_refines h
  rw [h.has_iff, ← hmem, hiter]
  constructor
  · intro hin
    exact ⟨_, rfl, List.mem_map.mpr ⟨_, hin, rfl⟩⟩
  · rintro ⟨nets, hnets, hin⟩
    cases hnets
    obtain ⟨⟨_, k⟩, hk, heq⟩ := List.mem_map.mp hin
    rw [Prod.mk.injEq] at heq
    rw [← NetKey.toNet_injective heq.2]
    exact hk

theorem Routed.consistent (h : s.Routed) (hidx : s.Indexed g) : s.Consistent := by
  obtain ⟨m, href, hdisjoint, hm⟩ := h.routes
  refine ⟨hidx.byIdx, ?_, fun a => ?_⟩
  · obtain ⟨items, hiter, hnodup, hmem⟩ := AllowedIPs.iter_refines href
    refine ⟨items, hiter, fun key net => ?_, hnodup, ?_⟩
    · rw [hmem, hm]
      constructor
      · rintro ⟨peer, hpeer, hhas⟩
        obtain ⟨mp, hmp⟩ := h.peers key peer hpeer
        obtain ⟨nets, hnets, hin⟩ := (has_iff_iter hmp).mp hhas
        exact ⟨peer, nets, hpeer, hnets, hin⟩
      · rintro ⟨peer, nets, hpeer, hnets, hin⟩
        obtain ⟨mp, hmp⟩ := h.peers key peer hpeer
        exact ⟨peer, hpeer, (has_iff_iter hmp).mpr ⟨nets, hnets, hin⟩⟩
    · rintro ⟨k, n⟩ hx ⟨l, o⟩ hy hne a ⟨hn, ho⟩
      rw [hmem] at hx hy
      obtain rfl := hdisjoint n o k l hx hy ⟨a, hn, ho⟩
      cases hx.symm.trans hy
      exact hne rfl
  · obtain ⟨r, hr, hsome, -⟩ := AllowedIPs.find_refines href a
    refine ⟨r, hr, fun key => ?_⟩
    rw [hsome, hdisjoint.longest_iff]
    constructor
    · rintro ⟨n, hn, hcontains⟩
      obtain ⟨peer, hpeer, hhas⟩ := (hm n key).mp hn
      obtain ⟨mp, hmp⟩ := h.peers key peer hpeer
      obtain ⟨b, hb, hallowed⟩ := Peer.isAllowedIp_spec hmp a
      rw [hallowed.mpr ⟨n, hmp.has_iff.mp hhas, hcontains⟩] at hb
      exact ⟨peer, hpeer, hb⟩
    · rintro ⟨peer, hpeer, htrue⟩
      obtain ⟨mp, hmp⟩ := h.peers key peer hpeer
      obtain ⟨b, hb, hallowed⟩ := Peer.isAllowedIp_spec hmp a
      cases hb.symm.trans htrue
      obtain ⟨n, hn, hcontains⟩ := hallowed.mp rfl
      exact ⟨n, (hm n key).mpr ⟨peer, hpeer, hmp.has_iff.mpr hn⟩, hcontains⟩

end PeerState

namespace Device

structure Tables (d : Device K N BYTES) : Prop where
  routed : d.peers.Routed
  indexed : d.peers.Indexed d.indexGenerator

variable {d d' : Device K N BYTES}

theorem Tables.setPeer (h : d.Tables) {key : PublicKey} {peer : Peer K} (peer' : Peer K)
    (hpeer : d.peers.peerByKey key = some peer) (hindex : peer'.index = peer.index)
    (hips : peer'.allowedIps = peer.allowedIps) :
    Tables { d with peers := d.peers.setPeer key peer' } :=
  ⟨h.routed.of_same (.setPeer peer' hpeer hips) rfl,
    h.indexed.of_same (.setPeer peer' hpeer hindex) rfl⟩

theorem Move.tables (h : Move True d d') (hinv : d.Tables) : d'.Tables := by
  cases h with
  | read | count => exact ⟨hinv.routed, hinv.indexed⟩
  | @tunnel key peer t w configured call =>
    obtain ⟨hrouted, hindexed⟩ :=
      hinv.setPeer { peer with tunnel := t } configured rfl rfl
    exact ⟨hrouted, hindexed⟩
  | @endpoint key peer configured addr allowed =>
    exact hinv.setPeer { peer with endpoint := some addr } configured rfl rfl

theorem addPeerToState_tables {profile : Profile} {s s' : PeerState K} {config : PeerConfig}
    {r : Except Error Unit} {privateKey : K.Secret} {g g' : IndexGenerator} {stamper : TimeStamper}
    {w w' : World K N BYTES}
    (h : addPeerToState profile s config privateKey g stamper w = .ok (r, s', g', w'))
    (hrouted : s.Routed) (hindexed : s.Indexed g) : s'.Routed ∧ s'.Indexed g' := by
  rcases addPeerToState_ok h with
    ⟨-, rfl, ⟨rfl, -⟩ | ⟨⟨index, hnext⟩, -⟩⟩ |
      ⟨-, hnew, -, index, allowedIps, peersByIp, hnext, hips, hrebuilt, rfl⟩
  · exact ⟨hrouted, hindexed⟩
  · exact ⟨hrouted, hindexed.advance hnext⟩
  · obtain ⟨r, hr, hrefines⟩ := Peer.allowedIpsFromSlice_refines profile config.allowedIps
    cases hr.symm.trans hips
    refine ⟨hrouted.rebuilt (hrefines allowedIps rfl) hrebuilt rfl
      ⟨_, AList.lookup_insert _, rfl⟩ fun k hk => AList.lookup_insert_ne hk, ?_⟩
    exact hindexed.insert (newPeer config privateKey index stamper allowedIps w) hnew hnext _

theorem handlePeerUpdate_tables {c : Command} {completion : CommandCompletion}
    (h : d.handlePeerUpdate c = .ok (completion, d')) (hinv : d.Tables) : d'.Tables := by
  cases handlePeerUpdate_cases h with
  | none | unknown | list => exact hinv
  | get => exact ⟨hinv.routed, hinv.indexed⟩
  | add call =>
    obtain ⟨hrouted, hindexed⟩ := addPeerToState_tables call hinv.routed hinv.indexed
    exact ⟨hrouted, hindexed⟩
  | @update config _ _ call =>
    rcases updatePeerInState_ok call with
      ⟨-, rfl⟩ | ⟨-, peer, allowedIps, peersByIp, hpeer, hips, hrebuilt, rfl⟩
    · exact ⟨hinv.routed, hinv.indexed⟩
    · have hmem := Bounded.mem_of_lookup hpeer
      obtain ⟨r, hr, hrefines⟩ := Peer.allowedIpsFromSlice_refines d.profile config.allowedIps
      cases hr.symm.trans hips
      refine ⟨hinv.routed.rebuilt (hrefines allowedIps rfl) hrebuilt rfl
        ⟨_, Bounded.lookup_replace_self _ hmem, rfl⟩ fun k hk => Bounded.lookup_replace_ne _ hk, ?_⟩
      exact hinv.indexed.of_same (.setPeer (updatedPeer config allowedIps peer) hpeer rfl) rfl
  | @remove publicKey =>
    rw [removePeerFromState_eq]
    cases hpeer : d.peers.peerByKey publicKey with
    | none => exact ⟨hinv.routed, hinv.indexed⟩
    | some peer => exact ⟨hinv.routed.erase publicKey _, hinv.indexed.erase hpeer _⟩

theorem step_tables {e : Event} {outputs : List Output} (h : d.step e = .ok (outputs, d'))
    (hinv : d.Tables) : d'.Tables := by
  rcases step_cases h with ⟨c, completion, -, hcall, -⟩ | ⟨order, -, rfl⟩ | hmoves
  · exact handlePeerUpdate_tables hcall hinv
  · have hsame : ∀ {β : Type} (f : Peer K → β), PeerState.SameBy f d.peers
        { d.peers with peers := Bounded.reorder order d.peers.peers } := fun f key =>
      congrArg (Option.map f) (Bounded.lookup_reorder order d.peers.peers key)
    exact ⟨hinv.routed.of_same (hsame _) rfl, hinv.indexed.of_same (hsame _) rfl⟩
  · exact hmoves.invariant Move.tables hinv

theorem new_tables {profile : Profile} {config : Config K} {resources : Resources} {draws : Draws}
    {clock : ℕ → ℕ} {secrets : ℕ → K.Secret}
    (h : new profile config resources draws clock secrets = .ok (.ok d)) : d.Tables := by
  obtain ⟨-, -, -, hrouted, hindexed⟩ := new_invariant (I := fun s g _ => s.Routed ∧ s.Indexed g) h
    (fun hcall hs => addPeerToState_tables hcall hs.1 hs.2)
    ⟨PeerState.new_routed, PeerState.new_indexed _⟩
  exact ⟨hrouted, hindexed⟩

theorem run_tables {events : List Event} {outputs : List (List Output)}
    (hrun : Machine.run step d events = .ok (outputs, d')) (h : d.Tables) : d'.Tables :=
  Machine.run_invariant (fun _ _ _ _ _ hinv hstep => step_tables hstep hinv) hrun h

theorem Reachable.tables (h : d.Reachable) : d.Tables := by
  obtain ⟨profile, config, resources, draws, clock, secrets, start, events, outputs, hnew, hrun⟩ := h
  exact run_tables hrun (new_tables hnew)

/-- Whatever commands and packets a device has handled, its table of indexes lists the configured
peers, its routes are the disjoint prefixes of the configured peers, and the peer that an address is
routed to is the one peer that is allowed to use it. -/
theorem run_peers_consistent (profile : Profile) (config : Config K) (resources : Resources)
    (draws : Draws) (clock : ℕ → ℕ) (secrets : ℕ → K.Secret) (start : Device K N BYTES)
    (hnew : new profile config resources draws clock secrets = .ok (.ok start))
    (events : List Event) (outputs : List (List Output))
    (hrun : Machine.run step start events = .ok (outputs, d)) : d.peers.Consistent := by
  have htables := run_tables hrun (new_tables hnew)
  exact htables.routed.consistent htables.indexed

theorem run_peers_consistent_commands :
    ∃ d : Device Crypto.sample 8 8192, d.peers.Consistent ∧
      d.peers.peerKeys = [Sample.key 9, Sample.key 5] := by
  have hcheck : Sample.runAnd 1
      [Sample.peerConfig 5 [Sample.net 0xc0a80000 24 (by decide)] none]
      [.command (.add (Sample.peerConfig 7 [Sample.net 0x0a000000 16 (by decide)] none)),
        .command (.add (Sample.peerConfig 9 [Sample.net 0x0a000100 24 (by decide)] none)),
        .command (.update (Sample.peerConfig 7 [Sample.net 0x0a010000 16 (by decide)] none)),
        .command (.add (Sample.peerConfig 9 [Sample.net 0x0a000100 24 (by decide)] none)),
        .command (.remove (Sample.key 7))]
      (fun (_, d) => d.peers.peerKeys = [Sample.key 9, Sample.key 5]) = true := by decide +kernel
  obtain ⟨start, outputs, d, hnew, hrun, hkeys⟩ := Sample.exists_of_runAnd hcheck
  exact ⟨d, run_peers_consistent .alloc _ Sample.resources Sample.draws Sample.clock Sample.secrets
    start hnew _ outputs hrun, of_decide_eq_true hkeys⟩

end Device

end Tendrilix
