import Tendrilix.AllowedIps.Capacity
import Tendrilix.Device.PeerState

/-!
# Routes of the peer table

The table that packets are routed by holds the prefixes of every configured peer, and no two of
them share an address. So the longest match for an address is the only match, and the peer it
belongs to is the only one that may use the address.
-/

namespace Tendrilix

open AllowedIps Noise

variable {K : Crypto} {D : Type}

/-! ### Maps of disjoint prefixes -/

namespace RouteMap

def Disjoint (m : RouteMap D) : Prop :=
  ∀ k l d e, m k = some d → m l = some e → k.Meets l → k = l

variable {m : RouteMap D}

theorem insert_eq_some_iff {k l : NetKey} {d e : D} (hk : m k = none) :
    m.insert k d l = some e ↔ m l = some e ∨ (e = d ∧ l = k) := by
  unfold insert
  by_cases h : l = k
  · subst h
    simp [hk, eq_comm]
  · simp [h]

theorem Disjoint.insert (h : m.Disjoint) {k : NetKey} (d : D)
    (hfree : ∀ l e, m l = some e → ¬ k.Meets l) : (m.insert k d).Disjoint := by
  have hk : m k = none := by
    cases hmk : m k with
    | none => rfl
    | some e => exact absurd k.meets_self (hfree k e hmk)
  intro l l' e e' hl hl' hmeet
  rw [insert_eq_some_iff hk] at hl hl'
  rcases hl with hl | ⟨-, hl⟩
  · rcases hl' with hl' | ⟨-, hl'⟩
    · exact h l l' e e' hl hl' hmeet
    · exact absurd (hl' ▸ hmeet.symm) (hfree l e hl)
  · rcases hl' with hl' | ⟨-, hl'⟩
    · exact absurd (hl ▸ hmeet) (hfree l' e' hl')
    · rw [hl, hl']

theorem remove_eq_some_iff {f : D → Bool} {k : NetKey} {d : D} :
    m.remove f k = some d ↔ m k = some d ∧ f d = false := by
  simp [remove, Option.filter_eq_some_iff]

theorem Disjoint.remove (h : m.Disjoint) (f : D → Bool) : (m.remove f).Disjoint := by
  intro k l d e hk hl
  exact h k l d e (remove_eq_some_iff.mp hk).1 (remove_eq_some_iff.mp hl).1

theorem Disjoint.longest_iff (h : m.Disjoint) {a : IpAddr} {d : D} :
    m.Longest a d ↔ ∃ k, m k = some d ∧ k.Contains a := by
  constructor
  · rintro ⟨k, hk, hka, -⟩
    exact ⟨k, hk, hka⟩
  · rintro ⟨k, hk, hka⟩
    refine ⟨k, hk, hka, fun l e hl hla => ?_⟩
    rw [h l k e d hl hk ⟨a, hla, hka⟩]

end RouteMap

namespace AllowedIPs

theorem Refines.unique {t : AllowedIPs D} {m m' : RouteMap D} (h : t.Refines m)
    (h' : t.Refines m') : m = m' := by
  obtain ⟨items, hiter, -, hmem⟩ := iter_refines h
  obtain ⟨items', hiter', -, hmem'⟩ := iter_refines h'
  have hinj : Function.Injective fun x : D × NetKey => (x.1, x.2.toNet) := by
    intro x y hxy
    rw [Prod.mk.injEq] at hxy
    exact Prod.ext hxy.1 (NetKey.toNet_injective hxy.2)
  have hitems : items = items' := hinj.list_map (Except.ok.inj (hiter.symm.trans hiter'))
  subst hitems
  funext k
  apply Option.ext
  intro d
  rw [← hmem d k, hmem' d k]

theorem tryFromLoop_refines (capacity : Option ℕ) (items : List (IpNet × D)) {t : AllowedIPs D}
    {m : RouteMap D} (h : t.Refines m) :
    ∃ r, tryFromLoop capacity items t = .ok r ∧ ∀ t', r = .ok t' → ∃ m', t'.Refines m' := by
  induction items generalizing t m with
  | nil =>
    refine ⟨_, rfl, fun t' ht' => ?_⟩
    cases ht'
    exact ⟨m, h⟩
  | cons item items ih =>
    obtain ⟨net, d⟩ := item
    rcases insert_refines capacity h net d with hfull | ⟨t₁, hok, href⟩
    · refine ⟨.error .full, ?_, nofun⟩
      simp only [tryFromLoop, hfull, ok_bind, pure_eq_ok]
    · obtain ⟨r, hr, hr'⟩ := ih href
      refine ⟨r, ?_, hr'⟩
      simp only [tryFromLoop, hok, ok_bind]
      exact hr

def Has (t : AllowedIPs D) (d : D) (k : NetKey) : Prop := ∃ m, t.Refines m ∧ m k = some d

theorem Refines.has_iff {t : AllowedIPs D} {m : RouteMap D} (h : t.Refines m) {d : D}
    {k : NetKey} : t.Has d k ↔ m k = some d := by
  constructor
  · rintro ⟨m', h', hk⟩
    rwa [h.unique h']
  · exact fun hk => ⟨m, h, hk⟩

def prefixes (t : AllowedIPs D) : List NetKey :=
  match t.iter with
  | .ok items => items.map fun x => .ofNet x.2
  | .error _ => []

theorem Refines.iter_eq {t : AllowedIPs D} {m : RouteMap D} (h : t.Refines m) :
    ∃ items, t.iter = .ok items ∧ t.prefixes = items.map (NetKey.ofNet ∘ Prod.snd) := by
  obtain ⟨items, hiter, -⟩ := iter_refines h
  exact ⟨_, hiter, by rw [prefixes, hiter]; rfl⟩

theorem Refines.prefixes_eq {t : AllowedIPs D} {m : RouteMap D} (h : t.Refines m) :
    ∃ items : List (D × NetKey), t.prefixes = items.map Prod.snd ∧ (items.map Prod.snd).Nodup ∧
      ∀ d k, (d, k) ∈ items ↔ m k = some d := by
  obtain ⟨items, hiter, hnodup, hmem⟩ := iter_refines h
  refine ⟨items, ?_, hnodup, hmem⟩
  rw [prefixes, hiter]
  exact List.map_map.trans (List.map_congr_left fun x _ => NetKey.ofNet_toNet x.2)

theorem Refines.nodup_prefixes {t : AllowedIPs D} {m : RouteMap D} (h : t.Refines m) :
    t.prefixes.Nodup := by
  obtain ⟨items, hprefixes, hnodup, -⟩ := h.prefixes_eq
  rwa [hprefixes]

theorem Refines.mem_prefixes {t : AllowedIPs D} {m : RouteMap D} (h : t.Refines m) {k : NetKey} :
    k ∈ t.prefixes ↔ ∃ d, m k = some d := by
  obtain ⟨items, hprefixes, -, hmem⟩ := h.prefixes_eq
  rw [hprefixes, List.mem_map]
  constructor
  · rintro ⟨⟨d, k⟩, hin, rfl⟩
    exact ⟨d, (hmem d k).mp hin⟩
  · exact fun ⟨d, hd⟩ => ⟨(d, k), (hmem d k).mpr hd, rfl⟩

end AllowedIPs

namespace Peer

theorem allowedIpsFromSlice_refines (profile : Profile) (allowedIps : List IpNet) :
    ∃ r, allowedIpsFromSlice profile allowedIps = .ok r ∧
      ∀ t, r = .ok t → ∃ m, t.Refines m := by
  obtain ⟨r, hr, hr'⟩ := AllowedIPs.tryFromLoop_refines profile.maxAllowedIpsPerPeer
    (allowedIps.map fun ip => (ip, ())) AllowedIPs.new_refines
  rw [allowedIpsFromSlice, AllowedIPs.tryFromIter, hr]
  cases r with
  | error e => exact ⟨_, rfl, nofun⟩
  | ok t =>
    refine ⟨_, rfl, fun t' ht' => ?_⟩
    cases ht'
    exact hr' t rfl

theorem isAllowedIp_spec {p : Peer K} {m : RouteMap Unit} (h : p.allowedIps.Refines m) (a : IpAddr) :
    ∃ b, p.isAllowedIp a = .ok b ∧ (b = true ↔ ∃ k, m k = some () ∧ k.Contains a) := by
  obtain ⟨r, hr, -, hnone⟩ := AllowedIPs.find_refines h a
  refine ⟨r.isSome, by rw [isAllowedIp, hr]; rfl, ?_⟩
  rw [← not_iff_not, Bool.not_eq_true, Option.isSome_eq_false_iff, Option.isNone_iff_eq_none, hnone]
  constructor
  · rintro hunrouted ⟨k, hk, hka⟩
    exact hunrouted k () hk hka
  · exact fun hno k _ hk hka => hno ⟨k, hk, hka⟩

end Peer

/-! ### Rebuilding the routes -/

namespace PeerState

theorem routePeer_spec (profile : Profile) (key : PublicKey) (nets : List IpNet)
    {t : AllowedIPs PublicKey} {m : RouteMap PublicKey} (h : t.Refines m) (hm : m.Disjoint) :
    ∃ r, routePeer profile key nets t = .ok r ∧ ∀ t', r = .ok t' → ∃ m', t'.Refines m' ∧
      m'.Disjoint ∧ ∀ n k, m' n = some k ↔ m n = some k ∨ (k = key ∧ n ∈ nets.map .ofNet) := by
  induction nets generalizing t m with
  | nil =>
    refine ⟨_, rfl, fun t' ht' => ?_⟩
    cases ht'
    exact ⟨m, h, hm, by simp⟩
  | cons net nets ih =>
    obtain ⟨b, hoverlaps, hb⟩ := AllowedIPs.overlaps_refines h net
    cases b with
    | true =>
      refine ⟨.error .allowedIPOverlap, ?_, nofun⟩
      simp only [routePeer, hoverlaps]
    | false =>
      have hfree : ∀ l e, m l = some e → ¬ (NetKey.ofNet net).Meets l := fun l e hl hmeet =>
        Bool.false_ne_true (hb.mpr ⟨l, e, hl, hmeet⟩)
      have hnone : m (.ofNet net) = none := by
        cases hk : m (.ofNet net) with
        | none => rfl
        | some e => exact absurd (NetKey.meets_self _) (hfree _ e hk)
      rcases AllowedIPs.insert_refines profile.peerRoutes h net key with hfull | ⟨t₁, hok, href⟩
      · refine ⟨.error .capacity, ?_, nofun⟩
        simp only [routePeer, hoverlaps, hfull, ok_bind, pure_eq_ok]
      · obtain ⟨r, hr, hr'⟩ := ih href (hm.insert key hfree)
        refine ⟨r, ?_, fun t' ht' => ?_⟩
        · simp only [routePeer, hoverlaps, hok, ok_bind]
          exact hr
        · obtain ⟨m', href', hdisjoint, hm'⟩ := hr' t' ht'
          refine ⟨m', href', hdisjoint, fun n k => ?_⟩
          rw [hm' n k, RouteMap.insert_eq_some_iff hnone, List.map_cons, List.mem_cons]
          tauto

theorem routePeers_spec (profile : Profile) (routes : List (PublicKey × AllowedIPs Unit))
    (hroutes : ∀ x ∈ routes, ∃ m, x.2.Refines m) {t : AllowedIPs PublicKey}
    {m : RouteMap PublicKey} (h : t.Refines m) (hm : m.Disjoint) :
    ∃ r, routePeers profile routes t = .ok r ∧ ∀ t', r = .ok t' → ∃ m', t'.Refines m' ∧
      m'.Disjoint ∧
        ∀ n k, m' n = some k ↔ m n = some k ∨ ∃ table, (k, table) ∈ routes ∧ table.Has () n := by
  induction routes generalizing t m with
  | nil =>
    refine ⟨_, rfl, fun t' ht' => ?_⟩
    cases ht'
    exact ⟨m, h, hm, by simp⟩
  | cons route routes ih =>
    obtain ⟨key, table⟩ := route
    obtain ⟨mp, hmp⟩ := hroutes (key, table) (by simp)
    obtain ⟨items, hiter, -, hmem⟩ := AllowedIPs.iter_refines hmp
    have hnets : ∀ n, n ∈ ((items.map fun x => (x.1, x.2.toNet)).map Prod.snd).map NetKey.ofNet ↔
        table.Has () n := by
      intro n
      rw [hmp.has_iff, ← hmem]
      simp only [List.map_map, List.mem_map, Function.comp_apply, NetKey.ofNet_toNet]
      constructor
      · rintro ⟨⟨_, k⟩, hk, rfl⟩
        exact hk
      · exact fun hn => ⟨((), n), hn, rfl⟩
    obtain ⟨r, hr, hr'⟩ := routePeer_spec profile key
      ((items.map fun x => (x.1, x.2.toNet)).map Prod.snd) h hm
    cases r with
    | error e =>
      refine ⟨.error e, ?_, nofun⟩
      simp only [routePeers, hiter, ok_bind, hr, pure_eq_ok]
    | ok t₁ =>
      obtain ⟨m₁, href₁, hdisjoint₁, hm₁⟩ := hr' t₁ rfl
      obtain ⟨r, hrest, hrest'⟩ := ih (fun x hx => hroutes x (List.mem_cons_of_mem _ hx)) href₁
        hdisjoint₁
      refine ⟨r, ?_, fun t' ht' => ?_⟩
      · simp only [routePeers, hiter, ok_bind, hr]
        exact hrest
      · obtain ⟨m', href', hdisjoint', hm'⟩ := hrest' t' ht'
        refine ⟨m', href', hdisjoint', fun n k => ?_⟩
        rw [hm' n k, hm₁ n k, hnets n]
        simp only [List.mem_cons, Prod.mk.injEq]
        constructor
        · rintro ((hold | ⟨rfl, hhas⟩) | ⟨other, hother, hhas⟩)
          · exact .inl hold
          · exact .inr ⟨table, .inl ⟨rfl, rfl⟩, hhas⟩
          · exact .inr ⟨other, .inr hother, hhas⟩
        · rintro (hold | ⟨other, ⟨rfl, rfl⟩ | hother, hhas⟩)
          · exact .inl (.inl hold)
          · exact .inl (.inr ⟨rfl, hhas⟩)
          · exact .inr ⟨other, hother, hhas⟩

/-! ### Whether the routes can be rebuilt -/

def Free (s : Finset NetKey) (nets : List NetKey) : Prop :=
  (nets.Pairwise fun k l => ¬k.Meets l) ∧ ∀ k ∈ nets, ∀ l ∈ s, ¬k.Meets l

section Free

variable {s : Finset NetKey} {k : NetKey} {nets more : List NetKey}

theorem free_nil : Free s [] := ⟨.nil, fun _ hk => nomatch hk⟩

theorem free_cons : Free s (k :: nets) ↔ (∀ l ∈ s, ¬k.Meets l) ∧ Free (insert k s) nets := by
  rw [Free, Free, List.pairwise_cons, List.forall_mem_cons]
  constructor
  · intro ⟨⟨hk, hnets⟩, hfree, hrest⟩
    refine ⟨hfree, hnets, fun n hn l hl => ?_⟩
    rcases Finset.mem_insert.mp hl with rfl | hl
    · exact fun hmeet => hk n hn hmeet.symm
    · exact hrest n hn l hl
  · intro ⟨hfree, hnets, hrest⟩
    refine ⟨⟨fun n hn hmeet => ?_, hnets⟩, hfree, fun n hn l hl => ?_⟩
    · exact hrest n hn k (Finset.mem_insert_self k s) hmeet.symm
    · exact hrest n hn l (Finset.mem_insert_of_mem hl)

theorem free_append : Free s (nets ++ more) ↔ Free s nets ∧ Free (s ∪ nets.toFinset) more := by
  induction nets generalizing s with
  | nil =>
    rw [List.nil_append, List.toFinset_nil, Finset.union_empty]
    exact ⟨fun h => ⟨free_nil, h⟩, And.right⟩
  | cons k nets ih =>
    rw [List.cons_append, free_cons, free_cons, ih, and_assoc, List.toFinset_cons,
      Finset.union_insert, ← Finset.insert_union]

end Free

inductive RouteVerdict (capacity : Option ℕ) (s : Finset NetKey) (nets : List NetKey) :
    Except Device.Error (AllowedIPs PublicKey) → Prop
  | ok {t : AllowedIPs PublicKey} (free : Free s nets)
      (spans : TableSpans capacity t (s ∪ nets.toFinset)) : RouteVerdict capacity s nets (.ok t)
  | overlap (taken : ¬Free s nets) : RouteVerdict capacity s nets (.error .allowedIPOverlap)
  | full (exceeds : nodeLimit capacity < nodesNeeded (s ∪ nets.toFinset)) :
      RouteVerdict capacity s nets (.error .capacity)

theorem RouteVerdict.error_append {capacity : Option ℕ} {s : Finset NetKey} {nets : List NetKey}
    {e : Device.Error} (h : RouteVerdict capacity s nets (.error e)) (more : List NetKey) :
    RouteVerdict capacity s (nets ++ more) (.error e) := by
  cases h with
  | overlap htaken => exact .overlap fun hfree => htaken (free_append.mp hfree).1
  | full hexceeds =>
    refine .full (hexceeds.trans_le (nodesNeeded_mono ?_))
    rw [List.toFinset_append, ← Finset.union_assoc]
    exact Finset.subset_union_left

theorem RouteVerdict.append {capacity : Option ℕ} {s : Finset NetKey} {nets more : List NetKey}
    {r : Except Device.Error (AllowedIPs PublicKey)} (hfree : Free s nets)
    (h : RouteVerdict capacity (s ∪ nets.toFinset) more r) :
    RouteVerdict capacity s (nets ++ more) r := by
  have hunion : s ∪ (nets ++ more).toFinset = s ∪ nets.toFinset ∪ more.toFinset := by
    rw [List.toFinset_append, Finset.union_assoc]
  cases h with
  | ok hfree' hspans => exact .ok (free_append.mpr ⟨hfree, hfree'⟩) (hunion ▸ hspans)
  | overlap htaken => exact .overlap fun hall => htaken (free_append.mp hall).2
  | full hexceeds => exact .full (hunion ▸ hexceeds)

theorem routePeer_verdict (profile : Profile) (key : PublicKey) (nets : List IpNet)
    {t : AllowedIPs PublicKey} {s : Finset NetKey} (h : TableSpans profile.peerRoutes t s) :
    ∃ r, routePeer profile key nets t = .ok r ∧
      RouteVerdict profile.peerRoutes s (nets.map .ofNet) r := by
  induction nets generalizing t s with
  | nil =>
    refine ⟨.ok t, rfl, .ok free_nil ?_⟩
    rw [List.map_nil, List.toFinset_nil, Finset.union_empty]
    exact h
  | cons net nets ih =>
    obtain ⟨m, href, hm⟩ := h.live
    obtain ⟨b, hoverlaps, hb⟩ := AllowedIPs.overlaps_refines href net
    cases b with
    | true =>
      obtain ⟨l, e, hl, hmeet⟩ := hb.mp rfl
      refine ⟨.error .allowedIPOverlap, by simp only [routePeer, hoverlaps], .overlap fun hfree => ?_⟩
      exact (free_cons.mp hfree).1 l ((hm l).mpr ⟨e, hl⟩) hmeet
    | false =>
      have hfree : ∀ l ∈ s, ¬(NetKey.ofNet net).Meets l := by
        intro l hl hmeet
        obtain ⟨e, he⟩ := (hm l).mp hl
        exact Bool.false_ne_true (hb.mpr ⟨l, e, he, hmeet⟩)
      have hone : Free s [NetKey.ofNet net] := free_cons.mpr ⟨hfree, free_nil⟩
      have hunion : s ∪ [NetKey.ofNet net].toFinset = insert (NetKey.ofNet net) s := by
        rw [List.toFinset_cons, List.toFinset_nil, Finset.union_comm]
        rfl
      obtain ⟨r, t₁, hinsert, ⟨⟨old, rfl⟩, h₁⟩ | ⟨rfl, hlt⟩⟩ := h.of_insert net key
      · obtain ⟨r, hr, hverdict⟩ := ih h₁
        refine ⟨r, ?_, ?_⟩
        · simp only [routePeer, hoverlaps, hinsert, ok_bind]
          exact hr
        · exact RouteVerdict.append hone (hunion ▸ hverdict)
      · refine ⟨.error .capacity, ?_, ?_⟩
        · simp only [routePeer, hoverlaps, hinsert, ok_bind, pure_eq_ok]
        · have hfull : RouteVerdict profile.peerRoutes s [NetKey.ofNet net] (.error .capacity) :=
            .full (hunion.symm ▸ hlt)
          exact hfull.error_append _

theorem routePeers_verdict (profile : Profile) (routes : List (PublicKey × AllowedIPs Unit))
    (hroutes : ∀ x ∈ routes, ∃ m, x.2.Refines m) {t : AllowedIPs PublicKey} {s : Finset NetKey}
    (h : TableSpans profile.peerRoutes t s) : ∃ r, routePeers profile routes t = .ok r ∧
      RouteVerdict profile.peerRoutes s (routes.flatMap fun x => x.2.prefixes) r := by
  induction routes generalizing t s with
  | nil =>
    refine ⟨.ok t, rfl, .ok free_nil ?_⟩
    rw [List.flatMap_nil, List.toFinset_nil, Finset.union_empty]
    exact h
  | cons route routes ih =>
    obtain ⟨key, table⟩ := route
    obtain ⟨mp, hmp⟩ := hroutes (key, table) (by simp)
    obtain ⟨items, hiter, hprefixes⟩ := hmp.iter_eq
    obtain ⟨r, hr, hverdict⟩ := routePeer_verdict profile key (items.map Prod.snd) h
    rw [List.map_map, ← hprefixes] at hverdict
    rw [List.flatMap_cons]
    cases r with
    | error e =>
      refine ⟨.error e, ?_, hverdict.error_append _⟩
      simp only [routePeers, hiter, ok_bind, hr, pure_eq_ok]
    | ok t₁ =>
      cases hverdict with
      | ok hfree h₁ =>
        obtain ⟨r, hrest, hverdict⟩ := ih (fun x hx => hroutes x (List.mem_cons_of_mem _ hx)) h₁
        refine ⟨r, ?_, .append hfree hverdict⟩
        simp only [routePeers, hiter, ok_bind, hr]
        exact hrest

variable {s : PeerState K}

theorem mem_routesWith {key k : PublicKey} {table other : AllowedIPs Unit} :
    (k, other) ∈ s.routesWith key table ↔ (k = key ∧ other = table) ∨
      (k ≠ key ∧ ∃ peer, s.peerByKey k = some peer ∧ other = peer.allowedIps) := by
  have hentry : ∀ peer, (⟨k, peer⟩ : Sigma fun _ => Peer K) ∈ s.peers.entries ↔
      s.peerByKey k = some peer := fun peer => AList.mem_lookup_iff.symm
  rw [routesWith, List.mem_append, List.mem_map]
  by_cases hk : k = key
  · subst hk
    by_cases hmem : k ∈ s.peers
    · obtain ⟨peer, hpeer⟩ := Option.isSome_iff_exists.mp (AList.lookup_isSome.mpr hmem)
      rw [if_pos hmem]
      constructor
      · rintro (⟨⟨k', peer'⟩, -, heq⟩ | hnil)
        · simp only [Prod.mk.injEq] at heq
          obtain ⟨rfl, rfl⟩ := heq
          exact .inl ⟨rfl, by simp⟩
        · cases hnil
      · rintro (⟨-, rfl⟩ | ⟨hne, -⟩)
        · exact .inl ⟨⟨k, peer⟩, (hentry peer).mpr hpeer, by simp⟩
        · exact absurd rfl hne
    · rw [if_neg hmem]
      constructor
      · rintro (⟨⟨k', peer'⟩, hin, heq⟩ | hlast)
        · simp only [Prod.mk.injEq] at heq
          obtain ⟨rfl, rfl⟩ := heq
          exact absurd (Bounded.mem_of_lookup ((hentry peer').mp hin)) hmem
        · rw [List.mem_singleton, Prod.mk.injEq] at hlast
          exact .inl hlast
      · rintro (⟨-, rfl⟩ | ⟨hne, -⟩)
        · exact .inr (by simp)
        · exact absurd rfl hne
  · constructor
    · rintro (⟨⟨k', peer'⟩, hin, heq⟩ | hlast)
      · simp only [Prod.mk.injEq] at heq
        obtain ⟨rfl, rfl⟩ := heq
        exact .inr ⟨hk, peer', (hentry peer').mp hin, by simp [hk]⟩
      · split at hlast
        · cases hlast
        · rw [List.mem_singleton, Prod.mk.injEq] at hlast
          exact absurd hlast.1 hk
    · rintro (⟨heq, -⟩ | ⟨-, peer, hpeer, rfl⟩)
      · exact absurd heq hk
      · exact .inl ⟨⟨k, peer⟩, (hentry peer).mpr hpeer, by simp [hk]⟩

end PeerState

end Tendrilix
