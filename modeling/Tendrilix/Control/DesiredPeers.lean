import Tendrilix.Control.FailedMap

/-!
# What a map asks for

The desired peers of a network map: one for each public key, with the routes of the last peer that has
the key. Their route policies are the resolvable routes at their best priorities, whatever the order
in which the map lists the routes.
-/

namespace Tendrilix.Control

open NetMap (NetworkMap Route)

/-! ### One policy for each route -/

namespace RoutePolicy

variable {p q : RoutePolicy}

theorem eq_of_routeKey (hroute : p.routeKey = q.routeKey) (hpriority : p.priority = q.priority) :
    p = q := by
  cases p <;> cases q <;> simp_all [routeKey, priority]

theorem setPriority_eq (hroute : p.routeKey = q.routeKey) : p.setPriority q.priority = q := by
  apply eq_of_routeKey
  · rw [setPriority_routeKey, hroute]
  · cases p <;> rfl

end RoutePolicy

def Best (policies : List RoutePolicy) (q : RoutePolicy) : Prop :=
  q ∈ policies ∧ ∀ p ∈ policies, p.routeKey = q.routeKey → q.priority ≤ p.priority

theorem mem_modify_cases {deduped : List RoutePolicy} {policy : RoutePolicy} {i : ℕ}
    (hfound : deduped.findIdx? (·.sameRoute policy) = some i) :
    let merged := deduped.modify i fun existing =>
      if policy.priority < existing.priority then existing.setPriority policy.priority else existing
    (∀ q ∈ merged, q ∈ deduped ∨ q = policy) ∧
      ∀ p, p ∈ deduped ∨ p = policy → ∃ q ∈ merged, q.routeKey = p.routeKey ∧ q.priority ≤ p.priority := by
  intro merged
  obtain ⟨hlt, hsame, -⟩ := List.findIdx?_eq_some_iff_getElem.mp hfound
  rw [RoutePolicy.sameRoute_iff] at hsame
  set existing := deduped[i] with hexisting
  have hat : ∀ j, merged[j]? = if i = j then
      some (if policy.priority < existing.priority then policy else existing) else deduped[j]? := by
    intro j
    simp only [merged]
    rw [List.getElem?_modify]
    by_cases hj : i = j
    · subst hj
      rw [List.getElem?_eq_getElem hlt, ← hexisting]
      simp [RoutePolicy.setPriority_eq hsame]
    · simp [hj]
  have hmerged := hat i
  rw [if_pos rfl] at hmerged
  constructor
  · intro q hq
    obtain ⟨j, hj⟩ := List.mem_iff_getElem?.mp hq
    rw [hat] at hj
    split at hj
    · cases hj
      split
      · exact .inr rfl
      · exact .inl (List.getElem_mem hlt)
    · exact .inl (List.mem_of_getElem? hj)
  · have hbetter : (if policy.priority < existing.priority then policy else existing).routeKey =
          policy.routeKey ∧
        (if policy.priority < existing.priority then policy else existing).priority ≤ policy.priority ∧
        (if policy.priority < existing.priority then policy else existing).priority ≤
          existing.priority := by
      split
      · rename_i hless
        exact ⟨rfl, UInt16.le_refl _, UInt16.le_of_lt hless⟩
      · rename_i hless
        exact ⟨hsame, UInt16.not_lt.mp hless, UInt16.le_refl _⟩
    rintro p (hp | rfl)
    · obtain ⟨j, hj⟩ := List.mem_iff_getElem?.mp hp
      by_cases hij : i = j
      · subst hij
        rw [List.getElem?_eq_getElem hlt, ← hexisting] at hj
        cases hj
        exact ⟨_, List.mem_of_getElem? hmerged, hbetter.1.trans hsame.symm, hbetter.2.2⟩
      · refine ⟨p, List.mem_of_getElem? (i := j) ?_, rfl, UInt16.le_refl _⟩
        rw [hat, if_neg hij, hj]
    · exact ⟨_, List.mem_of_getElem? hmerged, hbetter.1, hbetter.2.1⟩

theorem dedupe_covers (policies deduped : List RoutePolicy) :
    (∀ q ∈ dedupe policies deduped, q ∈ deduped ∨ q ∈ policies) ∧
      ∀ p, p ∈ deduped ∨ p ∈ policies →
        ∃ q ∈ dedupe policies deduped, q.routeKey = p.routeKey ∧ q.priority ≤ p.priority := by
  induction policies generalizing deduped with
  | nil =>
    rw [dedupe]
    refine ⟨fun q hq => .inl hq, fun p hp => ⟨p, ?_, rfl, UInt16.le_refl _⟩⟩
    simpa using hp
  | cons policy policies ih =>
    rw [dedupe]
    cases hfound : deduped.findIdx? (·.sameRoute policy) with
    | some i =>
      obtain ⟨hsound, hcomplete⟩ := mem_modify_cases hfound
      obtain ⟨ihsound, ihcomplete⟩ := ih (deduped.modify i fun existing =>
        if policy.priority < existing.priority then existing.setPriority policy.priority else existing)
      refine ⟨fun q hq => ?_, fun p hp => ?_⟩
      · rcases ihsound q hq with hq | hq
        · rcases hsound q hq with hq | rfl
          · exact .inl hq
          · exact .inr List.mem_cons_self
        · exact .inr (List.mem_cons_of_mem _ hq)
      · have hstep : p ∈ policies ∨ ∃ q ∈ deduped.modify i fun existing =>
            if policy.priority < existing.priority then existing.setPriority policy.priority
            else existing, q.routeKey = p.routeKey ∧ q.priority ≤ p.priority := by
          rw [List.mem_cons, ← or_assoc] at hp
          rcases hp with hp | hp
          · exact .inr (hcomplete p hp)
          · exact .inl hp
        rcases hstep with hp | ⟨q, hq, hroute, hle⟩
        · exact ihcomplete p (.inr hp)
        · obtain ⟨q', hq', hroute', hle'⟩ := ihcomplete q (.inl hq)
          exact ⟨q', hq', hroute'.trans hroute, UInt16.le_trans hle' hle⟩
    | none =>
      obtain ⟨ihsound, ihcomplete⟩ := ih (deduped ++ [policy])
      refine ⟨fun q hq => ?_, fun p hp => ihcomplete p ?_⟩
      · have hq := ihsound q hq
        simp only [List.mem_append, List.mem_singleton] at hq
        simp only [List.mem_cons]
        tauto
      · simp only [List.mem_cons] at hp
        simp only [List.mem_append, List.mem_singleton]
        tauto

theorem mem_dedupe {policies : List RoutePolicy} {q : RoutePolicy} :
    q ∈ dedupe policies [] ↔ Best policies q := by
  obtain ⟨hsound, hcomplete⟩ := dedupe_covers policies []
  have hnodup := @dedupe_nodup policies [] List.nodup_nil
  have hmem : ∀ p ∈ dedupe policies [], p ∈ policies :=
    fun p hp => (hsound p hp).resolve_left List.not_mem_nil
  constructor
  · refine fun hq => ⟨hmem q hq, fun p hp hroute => ?_⟩
    obtain ⟨q', hq', hroute', hle⟩ := hcomplete p (.inr hp)
    rwa [List.inj_on_of_nodup_map hnodup hq' hq (hroute'.trans hroute)] at hle
  · rintro ⟨hq, hbest⟩
    obtain ⟨q', hq', hroute, hle⟩ := hcomplete q (.inr hq)
    have hpriority := UInt16.le_antisymm hle (hbest q' (hmem q' hq') hroute)
    rwa [← RoutePolicy.eq_of_routeKey hroute hpriority]

/-! ### The routes that resolve -/

/-- A route leads somewhere: to an endpoint, or over a peer of the map. `Own` tells the keys of the
peer that the route is for, which is no relay for itself. -/
inductive Resolves (Own : KeyBytes → Prop) (map : NetworkMap) : Route → RouteKey → Prop
  | direct (priority : UInt16) (endpoint : Option SocketAddr) :
      Resolves Own map ⟨priority, .direct endpoint⟩ (.direct endpoint)
  | relay (priority : UInt16) {id : NetMap.PeerId} {relay : NetMap.Peer}
      (found : map.peers.find? (·.id = id) = some relay) (other : ¬Own relay.publicKey) :
      Resolves Own map ⟨priority, .relay id⟩ (.relay relay.publicKey)

def IsKeyOf (p : NetMap.Peer) (key : KeyBytes) : Prop := (key : PublicKey) = p.publicKey

def IsListed (p : NetMap.Peer) (key : KeyBytes) : Prop := key = p.publicKey

section Policies

variable {b : Build} {map : NetworkMap} {p : NetMap.Peer} {route : Route} {q : RoutePolicy}
  {policies : List RoutePolicy} {Own Own' : KeyBytes → Prop}

/-- The source compares the encodings. -/
theorem routePolicy_eq_some : routePolicy map p route = some q ↔
    Resolves (IsListed p) map route q.routeKey ∧ route.priority = q.priority := by
  obtain ⟨priority, kind⟩ := route
  cases kind with
  | direct endpoint =>
    rw [routePolicy, Option.some.injEq]
    constructor
    · rintro rfl
      exact ⟨.direct priority endpoint, rfl⟩
    · rintro ⟨hresolves, hpriority⟩
      refine RoutePolicy.eq_of_routeKey ?_ hpriority
      generalize q.routeKey = key at hresolves
      cases hresolves
      rfl
  | relay id =>
    rw [routePolicy]
    dsimp only
    constructor
    · intro hsome
      split at hsome
      · cases hsome
      · rename_i relay hfound
        split at hsome
        · cases hsome
        · rename_i hother
          cases hsome
          exact ⟨.relay priority hfound hother, rfl⟩
    · rintro ⟨hresolves, hpriority⟩
      generalize hkey : q.routeKey = key at hresolves
      cases hresolves with
      | relay _ found other =>
        rw [IsListed] at other
        simp only [found, if_neg other, Option.some.injEq]
        exact RoutePolicy.eq_of_routeKey hkey.symm hpriority

def Chosen (Own : KeyBytes → Prop) (map : NetworkMap) (p : NetMap.Peer) (q : RoutePolicy) : Prop :=
  (∃ route ∈ p.routes, Resolves Own map route q.routeKey ∧ route.priority = q.priority) ∧
    ∀ route ∈ p.routes, Resolves Own map route q.routeKey → q.priority ≤ route.priority

theorem best_iff_chosen :
    Best (p.routes.filterMap (routePolicy map p)) q ↔ Chosen (IsListed p) map p q := by
  simp only [Best, Chosen, List.mem_filterMap, routePolicy_eq_some]
  refine and_congr_right fun _ => ⟨fun hbest route hroute hresolves => ?_, ?_⟩
  · have hpolicy : ∃ q' : RoutePolicy, q'.routeKey = q.routeKey ∧ q'.priority = route.priority := by
      cases q with
      | direct endpoint _ => exact ⟨.direct endpoint route.priority, rfl, rfl⟩
      | relay key _ => exact ⟨.relay key route.priority, rfl, rfl⟩
    obtain ⟨q', hkey, hpriority⟩ := hpolicy
    rw [← hpriority]
    exact hbest q' ⟨route, hroute, hkey ▸ hresolves, hpriority.symm⟩ hkey
  · rintro hbest p' ⟨route, hroute, hresolves, hpriority⟩ hkey
    rw [← hpriority]
    exact hbest route hroute (hkey ▸ hresolves)

structure Normalized (Own : KeyBytes → Prop) (map : NetworkMap) (p : NetMap.Peer)
    (policies : List RoutePolicy) : Prop where
  nonempty : policies ≠ []
  distinct : (policies.map RoutePolicy.routeKey).Nodup
  sorted : policies.Pairwise fun q r => q.priority ≤ r.priority
  mem_iff : ∀ q, q ∈ policies ↔ Chosen Own map p q ∨
    (∀ route ∈ p.routes, ∀ key, ¬Resolves Own map route key) ∧ q = .direct none 0

theorem Normalized.congr (hsame : ∀ route ∈ p.routes, ∀ key,
    Resolves Own map route key ↔ Resolves Own' map route key) (h : Normalized Own map p policies) :
    Normalized Own' map p policies where
  nonempty := h.nonempty
  distinct := h.distinct
  sorted := h.sorted
  mem_iff q := by
    have hchosen : Chosen Own map p q ↔ Chosen Own' map p q :=
      and_congr (exists_congr fun route => and_congr_right fun hroute =>
          and_congr_left fun _ => hsame route hroute _)
        (forall₂_congr fun route hroute => imp_congr_left (hsame route hroute _))
    have hnone : (∀ route ∈ p.routes, ∀ key, ¬Resolves Own map route key) ↔
        ∀ route ∈ p.routes, ∀ key, ¬Resolves Own' map route key :=
      forall₂_congr fun route hroute => forall_congr' fun key => not_congr (hsame route hroute key)
    rw [h.mem_iff, hchosen, hnone]

theorem candidates_isEmpty : (p.routes.filterMap (routePolicy map p)).isEmpty = true ↔
    ∀ route ∈ p.routes, ∀ key, ¬Resolves (IsListed p) map route key := by
  rw [List.isEmpty_iff, List.filterMap_eq_nil_iff]
  refine forall₂_congr fun route _ => ⟨fun hnone key hresolves => ?_, fun hno => ?_⟩
  · cases hresolves with
    | direct priority endpoint => simp [routePolicy] at hnone
    | relay priority found other =>
      rw [IsListed] at other
      simp [routePolicy, found, other] at hnone
  · rw [Option.eq_none_iff_forall_ne_some]
    intro q hq
    exact hno _ (routePolicy_eq_some.mp hq).1

theorem collect_ok_iff {α : Type} {capacity : Option ℕ} {items collected : List α} {context : String} :
    collect capacity items context = .ok collected ↔
      (∀ c ∈ capacity, items.length ≤ c) ∧ items = collected := by
  constructor
  · intro h
    obtain ⟨rfl, hfits⟩ := collect_eq_ok h
    exact ⟨hfits, rfl⟩
  · rintro ⟨hfits, rfl⟩
    rw [collect, Bounded.collect, if_neg]
    · rfl
    · cases capacity with
      | none => simp
      | some c => simpa using hfits c rfl

def offeredPolicies (map : NetworkMap) (p : NetMap.Peer) : List RoutePolicy :=
  let policies := p.routes.filterMap (routePolicy map p)
  if policies.isEmpty then [.direct none 0] else policies

theorem routePoliciesForPeer_ok_iff : routePoliciesForPeer b map p = .ok policies ↔
    (∀ c ∈ b.profile.maxRoutes, (p.routes.filterMap (routePolicy map p)).length ≤ c) ∧
      (∀ c ∈ b.profile.maxRoutes, (dedupe (offeredPolicies map p) []).length ≤ c) ∧
      b.sortByPriority (dedupe (offeredPolicies map p) []) = policies := by
  simp only [routePoliciesForPeer, dedupeAndSortPolicies, bind_ok_iff, collect_ok_iff, pure_eq_ok,
    Except.ok.injEq]
  constructor
  · rintro ⟨candidates, ⟨hfits, rfl⟩, deduped, ⟨hfits', rfl⟩, hsorted⟩
    exact ⟨hfits, hfits', hsorted⟩
  · rintro ⟨hfits, hfits', hsorted⟩
    exact ⟨_, ⟨hfits, rfl⟩, _, ⟨hfits', rfl⟩, hsorted⟩

theorem best_offered : Best (offeredPolicies map p) q ↔ Chosen (IsListed p) map p q ∨
    (∀ route ∈ p.routes, ∀ key, ¬Resolves (IsListed p) map route key) ∧ q = .direct none 0 := by
  rw [← candidates_isEmpty, ← best_iff_chosen, offeredPolicies]
  split
  · rename_i hempty
    rw [List.isEmpty_iff.mp hempty]
    simp only [Best, List.mem_singleton, List.not_mem_nil, false_and, false_or, List.isEmpty_nil,
      true_and]
    constructor
    · exact fun hq => hq.1
    · rintro rfl
      refine ⟨rfl, ?_⟩
      rintro r rfl -
      exact UInt16.le_refl _
  · rename_i hsome
    simp [hsome]

theorem offeredPolicies_ne_nil : offeredPolicies map p ≠ [] := by
  rw [offeredPolicies]
  split
  · exact List.cons_ne_nil _ _
  · rename_i hsome
    exact fun hnil => hsome (List.isEmpty_iff.mpr hnil)

theorem routePoliciesForPeer_normalized (h : routePoliciesForPeer b map p = .ok policies) :
    Normalized (IsListed p) map p policies := by
  have hdistinct := (routePoliciesForPeer_listed h).2
  obtain ⟨-, -, rfl⟩ := routePoliciesForPeer_ok_iff.mp h
  have hperm := b.sort_perm (dedupe (offeredPolicies map p) [])
  refine ⟨fun hnil => ?_, hdistinct, b.sort_sorted _, fun q => ?_⟩
  · have hoffered : offeredPolicies map p ≠ [] := offeredPolicies_ne_nil
    obtain ⟨r, hr⟩ := List.exists_mem_of_ne_nil _ hoffered
    obtain ⟨q, hq, -⟩ := (dedupe_covers (offeredPolicies map p) []).2 r (.inr hr)
    rw [hnil] at hperm
    exact List.not_mem_nil (hperm.mem_iff.mpr hq)
  · rw [hperm.mem_iff, mem_dedupe, best_offered]

theorem initialPolicyIndex_best (hpolicies : policies ≠ []) (rng : Rng) :
    ∃ q, policies[(initialPolicyIndex policies rng).1]? = some q ∧
      ∀ r ∈ policies, q.priority ≤ r.priority := by
  rw [initialPolicyIndex]
  split
  · rename_i hnone
    rw [List.min?_eq_none_iff, List.map_eq_nil_iff] at hnone
    exact absurd hnone hpolicies
  rename_i best hbest
  obtain ⟨hmem, hle⟩ := List.min?_eq_some_iff.mp hbest
  dsimp only
  set candidates := (List.range policies.length).filter fun index =>
    policies[index]?.any (·.priority = best) with hcandidates
  have hcandidate : ∀ index ∈ candidates, ∃ q, policies[index]? = some q ∧ q.priority = best := by
    intro index hindex
    rw [hcandidates, List.mem_filter, Option.any_eq_true] at hindex
    obtain ⟨-, q, hq, hpriority⟩ := hindex
    exact ⟨q, hq, of_decide_eq_true hpriority⟩
  have hpos : 0 < candidates.length := by
    obtain ⟨q, hq, hpriority⟩ := List.mem_map.mp hmem
    obtain ⟨index, hindex⟩ := List.mem_iff_getElem?.mp hq
    apply List.length_pos_of_mem (a := index)
    rw [hcandidates, List.mem_filter, List.mem_range, Option.any_eq_true]
    exact ⟨(List.getElem?_eq_some_iff.mp hindex).1, q, hindex, decide_eq_true hpriority⟩
  have hchosen : (randomBelow rng candidates.length).1 < candidates.length := by
    rw [randomBelow, if_neg (by omega)]
    exact Nat.mod_lt _ hpos
  rw [List.getElem?_eq_getElem hchosen, Option.getD_some]
  obtain ⟨q, hq, hpriority⟩ := hcandidate _ (List.getElem_mem hchosen)
  refine ⟨q, hq, fun r hr => ?_⟩
  rw [hpriority]
  exact hle _ (List.mem_map_of_mem hr)

end Policies

/-! ### One peer for each key -/

section Peers

variable {b : Build} {map map' : NetworkMap} {rng rng' : Rng} {peers peers' : List NetMap.Peer}
  {desired desired' : Bounded.Map PublicKey DesiredPeer}

/-- The peer of the map that a key stands for in the end. -/
def lastPeer (peers : List NetMap.Peer) (key : PublicKey) : Option NetMap.Peer :=
  peers.reverse.find? (·.publicKey = key)

theorem lastPeer_cons (peer : NetMap.Peer) (rest : List NetMap.Peer) (key : PublicKey) :
    lastPeer (peer :: rest) key =
      (lastPeer rest key).or (if peer.publicKey = key then some peer else none) := by
  rw [lastPeer, List.reverse_cons, List.find?_append, lastPeer]
  simp [List.find?_singleton]

theorem lastPeer_isSome {key : PublicKey} :
    (lastPeer peers key).isSome ↔ ∃ p ∈ peers, p.publicKey = key := by
  simp [lastPeer, List.find?_isSome]

structure Wanted (b : Build) (map : NetworkMap) (p : NetMap.Peer) (d : DesiredPeer) : Prop where
  policies : routePoliciesForPeer b map p = .ok d.policies
  started : ∃ rng, d.activePolicy = (initialPolicyIndex d.policies rng).1
  route : d.activeRoute = d.policies[d.activePolicy]?.map RoutePolicy.routeKey

theorem desiredPeersLoop_lookup (h : desiredPeersLoop b map peers desired rng = (.ok desired', rng'))
    (key : PublicKey) :
    (∃ p d, lastPeer peers key = some p ∧ desired'.lookup key = some d ∧ Wanted b map p d) ∨
      lastPeer peers key = none ∧ desired'.lookup key = desired.lookup key := by
  induction peers generalizing desired rng with
  | nil =>
    cases h
    exact .inr ⟨rfl, rfl⟩
  | cons peer rest ih =>
    rw [desiredPeersLoop] at h
    rw [lastPeer_cons]
    split at h
    · cases h
    · cases h
    · rename_i allowedIps policies hips hpolicies
      split at h
      · rename_i hempty
        exact absurd (List.isEmpty_iff.mp hempty) (routePoliciesForPeer_normalized hpolicies).nonempty
      · dsimp only at h
        split at h
        · cases h
        · rename_i inserted hinsert
          rw [Bounded.tryInsertEntry_eq_some hinsert] at h
          rcases ih h with ⟨p, d, hlast, hlookup, hwanted⟩ | ⟨hlast, hlookup⟩
          · exact .inl ⟨p, d, by rw [hlast, Option.some_or], hlookup, hwanted⟩
          · rw [hlast, Option.none_or, hlookup]
            by_cases hkey : peer.publicKey = key
            · subst hkey
              rw [if_pos rfl, AList.lookup_insert]
              exact .inl ⟨peer, _, rfl, rfl, hpolicies, ⟨rng, rfl⟩, rfl⟩
            · rw [if_neg hkey, AList.lookup_insert_ne (Ne.symm hkey)]
              exact .inr ⟨rfl, rfl⟩

theorem desiredPeersFromMap_lookup (h : (desiredPeersFromMap b map rng).1 = .ok desired)
    (key : PublicKey) :
    (∃ p d, lastPeer map.peers key = some p ∧ desired.lookup key = some d ∧ Wanted b map p d) ∨
      lastPeer map.peers key = none ∧ desired.lookup key = none := by
  simpa using desiredPeersLoop_lookup (Prod.ext h rfl) key

/-! ### The order of routes -/

structure SamePeer (p p' : NetMap.Peer) : Prop where
  id_eq : p'.id = p.id
  publicKey_eq : p'.publicKey = p.publicKey
  tunnelIp_eq : p'.tunnelIp = p.tunnelIp
  routes_perm : p'.routes.Perm p.routes

theorem find?_samePeer {f : NetMap.Peer → Bool} (hf : ∀ p p', SamePeer p p' → f p' = f p)
    (h : List.Forall₂ SamePeer peers peers') :
    Option.Rel SamePeer (peers.find? f) (peers'.find? f) := by
  induction h with
  | nil => exact .none
  | cons hsame _ ih =>
    rw [List.find?_cons, List.find?_cons, hf _ _ hsame]
    split
    · exact .some hsame
    · exact ih

theorem routePolicy_samePeer (hmap : List.Forall₂ SamePeer map.peers map'.peers) {p p' : NetMap.Peer}
    (hsame : SamePeer p p') (route : Route) : routePolicy map' p' route = routePolicy map p route := by
  rw [routePolicy, routePolicy]
  cases route.kind with
  | direct endpoint => rfl
  | relay id =>
    have hrelay := find?_samePeer (f := fun peer => decide (peer.id = id))
      (fun _ _ hsame => by rw [hsame.id_eq]) hmap
    dsimp only
    generalize map.peers.find? (fun peer => decide (peer.id = id)) = relay at hrelay
    generalize map'.peers.find? (fun peer => decide (peer.id = id)) = relay' at hrelay
    cases hrelay with
    | none => rfl
    | some hrelay =>
      dsimp only
      rw [hrelay.publicKey_eq, hsame.publicKey_eq]

theorem Best.perm {l l' : List RoutePolicy} (hperm : l'.Perm l) (q : RoutePolicy) :
    Best l' q ↔ Best l q := by
  simp only [Best, hperm.mem_iff]

theorem dedupe_perm {l l' : List RoutePolicy} (hperm : l'.Perm l) :
    (dedupe l' []).Perm (dedupe l []) := by
  refine (List.perm_ext_iff_of_nodup ?_ ?_).mpr fun q => ?_
  · exact .of_map _ (dedupe_nodup List.nodup_nil)
  · exact .of_map _ (dedupe_nodup List.nodup_nil)
  · rw [mem_dedupe, mem_dedupe, Best.perm hperm]

theorem offeredPolicies_perm (hmap : List.Forall₂ SamePeer map.peers map'.peers)
    {p p' : NetMap.Peer} (hsame : SamePeer p p') :
    (p'.routes.filterMap (routePolicy map' p')).Perm (p.routes.filterMap (routePolicy map p)) ∧
      (offeredPolicies map' p').Perm (offeredPolicies map p) := by
  have hperm : (p'.routes.filterMap (routePolicy map' p')).Perm
      (p.routes.filterMap (routePolicy map p)) := by
    rw [funext (routePolicy_samePeer hmap hsame)]
    exact hsame.routes_perm.filterMap _
  refine ⟨hperm, ?_⟩
  rw [offeredPolicies, offeredPolicies, hperm.isEmpty_eq]
  split
  · exact .refl _
  · exact hperm

theorem routePoliciesForPeer_samePeer (hmap : List.Forall₂ SamePeer map.peers map'.peers)
    {p p' : NetMap.Peer} (hsame : SamePeer p p') {policies : List RoutePolicy}
    (h : routePoliciesForPeer b map p = .ok policies) :
    ∃ policies', routePoliciesForPeer b map' p' = .ok policies' ∧ policies'.Perm policies := by
  obtain ⟨hcandidates, hoffered⟩ := offeredPolicies_perm hmap hsame
  have hdedupe := dedupe_perm hoffered
  obtain ⟨hfits, hfits', rfl⟩ := routePoliciesForPeer_ok_iff.mp h
  rw [← hcandidates.length_eq] at hfits
  rw [← hdedupe.length_eq] at hfits'
  exact ⟨_, routePoliciesForPeer_ok_iff.mpr ⟨hfits, hfits', rfl⟩,
    (b.sort_perm _).trans (hdedupe.trans (b.sort_perm _).symm)⟩

theorem desiredPeersLoop_samePeer (hmap : List.Forall₂ SamePeer map.peers map'.peers)
    (hpeers : List.Forall₂ SamePeer peers peers') {desired₁ : Bounded.Map PublicKey DesiredPeer}
    {rng₁ : Rng} (h : (desiredPeersLoop b map peers desired₁ rng₁).1 = .ok desired)
    (desired₂ : Bounded.Map PublicKey DesiredPeer) (rng₂ : Rng)
    (hkeys : desired₂.keys = desired₁.keys) :
    ∃ desired', (desiredPeersLoop b map' peers' desired₂ rng₂).1 = .ok desired' := by
  induction hpeers generalizing desired₁ desired₂ rng₁ rng₂ with
  | nil => exact ⟨desired₂, rfl⟩
  | @cons p p' rest rest' hsame _ ih =>
    rw [desiredPeersLoop] at h ⊢
    rw [hsame.tunnelIp_eq, hsame.publicKey_eq]
    split at h
    · cases h
    · cases h
    · rename_i allowedIps policies hips hpolicies
      obtain ⟨policies', hpolicies', -⟩ := routePoliciesForPeer_samePeer hmap hsame hpolicies
      rw [hips, hpolicies']
      have hsome : policies.isEmpty = false := by
        simpa using (routePoliciesForPeer_normalized hpolicies).nonempty
      have hsome' : policies'.isEmpty = false := by
        simpa using (routePoliciesForPeer_normalized hpolicies').nonempty
      simp only [hsome, Bool.false_eq_true, if_false] at h
      simp only [hsome', Bool.false_eq_true, if_false]
      split at h
      · cases h
      · rename_i inserted hinsert
        obtain ⟨inserted', hinsert', hkeys'⟩ := Bounded.tryInsertEntry_of_keys hkeys hinsert
          (desiredPeer p' allowedIps policies' (initialPolicyIndex policies' rng₂).1)
        rw [hinsert']
        exact ih h _ _ hkeys'

structure DesiredPeer.FromMap (Own : KeyBytes → Prop) (map : NetworkMap) (p : NetMap.Peer)
    (d : DesiredPeer) : Prop where
  normalized : Normalized Own map p d.policies
  active : ∃ q, d.policies[d.activePolicy]? = some q ∧ d.activeRoute = some q.routeKey ∧
    ∀ r ∈ d.policies, q.priority ≤ r.priority

theorem Wanted.fromMap {p : NetMap.Peer} {d : DesiredPeer} (h : Wanted b map p d) :
    d.FromMap (IsListed p) map p := by
  have hnormalized := routePoliciesForPeer_normalized h.policies
  obtain ⟨rng, hstarted⟩ := h.started
  obtain ⟨q, hq, hbest⟩ := initialPolicyIndex_best hnormalized.nonempty rng
  rw [← hstarted] at hq
  refine ⟨hnormalized, q, hq, ?_, hbest⟩
  rw [h.route, hq, Option.map_some]

theorem Normalized.relay {Own : KeyBytes → Prop} {p : NetMap.Peer} {policies : List RoutePolicy}
    (h : Normalized Own map p policies) {relay : PublicKey} {priority : UInt16}
    (hmem : .relay relay priority ∈ policies) :
    ∃ peer ∈ map.peers, (peer.publicKey : PublicKey) = relay ∧ ¬Own peer.publicKey := by
  rcases (h.mem_iff _).mp hmem with ⟨⟨route, -, hresolves, -⟩, -⟩ | ⟨-, hdefault⟩
  · generalize hkey : RoutePolicy.routeKey _ = key at hresolves
    cases hresolves with
    | direct => cases hkey
    | relay _ found other =>
      cases hkey
      exact ⟨_, List.mem_of_find?_eq_some found, rfl, other⟩
  · cases hdefault

theorem configForPolicy_relay {d : DesiredPeer} {i : ℕ} {keepalive : Option ℕ} {relay : PublicKey}
    (h : (d.configForPolicy i keepalive).relay = some relay) :
    ∃ priority, .relay relay priority ∈ d.policies := by
  rw [DesiredPeer.configForPolicy] at h
  cases hpolicy : d.policies[i]? with
  | none =>
    rw [hpolicy] at h
    cases h
  | some policy =>
    rw [hpolicy] at h
    cases policy with
    | direct endpoint priority => cases h
    | relay key priority =>
      cases h
      exact ⟨priority, List.mem_of_getElem? hpolicy⟩

theorem lastPeer_publicKey {key : PublicKey} {p : NetMap.Peer} (h : lastPeer peers key = some p) :
    p.publicKey = key := by simpa using List.find?_some h

theorem lastPeer_samePeer (hmap : List.Forall₂ SamePeer peers peers') (key : PublicKey) :
    Option.Rel SamePeer (lastPeer peers key) (lastPeer peers' key) :=
  find?_samePeer (fun _ _ hsame => by rw [hsame.publicKey_eq]) (List.rel_reverse hmap)

theorem mem_desired (h : (desiredPeersFromMap b map rng).1 = .ok desired) (key : PublicKey) :
    key ∈ desired ↔ ∃ p ∈ map.peers, p.publicKey = key := by
  rw [← lastPeer_isSome, ← AList.lookup_isSome]
  rcases desiredPeersFromMap_lookup h key with ⟨p, d, hlast, hlookup, -⟩ | ⟨hlast, hlookup⟩
  · rw [hlast, hlookup]
    exact iff_of_true rfl rfl
  · rw [hlast, hlookup]
    exact iff_of_false nofun nofun

/-- The peer has no relay route over a peer that the map lists with another encoding of its key. -/
def Unaliased (map : NetworkMap) (p : NetMap.Peer) : Prop :=
  ∀ route ∈ p.routes, ∀ id relay, route.kind = .relay id →
    map.peers.find? (·.id = id) = some relay → IsKeyOf p relay.publicKey → IsListed p relay.publicKey

theorem Unaliased.resolves_iff {p : NetMap.Peer} (h : Unaliased map p) {route : Route}
    (hroute : route ∈ p.routes) (key : RouteKey) :
    Resolves (IsListed p) map route key ↔ Resolves (IsKeyOf p) map route key := by
  constructor
  · intro hresolves
    cases hresolves with
    | direct priority endpoint => exact .direct priority endpoint
    | relay priority found other =>
      exact .relay priority found fun hown => other (h _ hroute _ _ rfl found hown)
  · intro hresolves
    cases hresolves with
    | direct priority endpoint => exact .direct priority endpoint
    | relay priority found other =>
      exact .relay priority found fun hlisted => other (congrArg KeyBytes.toPublicKey hlisted)

theorem exists_policy_of_resolves {p : NetMap.Peer} {policies : List RoutePolicy}
    (h : routePoliciesForPeer b map p = .ok policies) {route : Route} (hroute : route ∈ p.routes)
    {q : RoutePolicy} (hpolicy : routePolicy map p route = some q) :
    ∃ q' ∈ policies, q'.routeKey = q.routeKey := by
  obtain ⟨-, -, rfl⟩ := routePoliciesForPeer_ok_iff.mp h
  have hcandidate : q ∈ p.routes.filterMap (routePolicy map p) :=
    List.mem_filterMap.mpr ⟨route, hroute, hpolicy⟩
  have hoffered : q ∈ offeredPolicies map p := by
    rw [offeredPolicies, if_neg fun hempty =>
      List.ne_nil_of_mem hcandidate (List.isEmpty_iff.mp hempty)]
    exact hcandidate
  obtain ⟨q', hq', hkey, -⟩ := (dedupe_covers (offeredPolicies map p) []).2 q (.inr hoffered)
  exact ⟨q', (b.sort_perm _).mem_iff.mpr hq', hkey⟩

/-- What a map is turned into: every key has the normalized routes of its last peer, over relays that
are desired themselves and are other peers, whatever the order of the routes. -/
structure Transformed (b : Build) (map : NetworkMap) (desired : Bounded.Map PublicKey DesiredPeer) :
    Prop where
  keys : ∀ key, key ∈ desired ↔ ∃ p ∈ map.peers, (p.publicKey : PublicKey) = key
  peers : ∀ key d, desired.lookup key = some d →
    ∃ p, lastPeer map.peers key = some p ∧ d.FromMap (IsKeyOf p) map p
  relays : ∀ key d, desired.lookup key = some d →
    ∀ relay priority, .relay relay priority ∈ d.policies → relay ∈ desired ∧ relay ≠ key
  configs : ∀ key d, desired.lookup key = some d →
    ∀ i keepalive, ∀ relay ∈ (d.configForPolicy i keepalive).relay, relay ∈ desired ∧ relay ≠ key
  unordered : ∀ map' rng', List.Forall₂ SamePeer map.peers map'.peers →
    ∃ desired', (desiredPeersFromMap b map' rng').1 = .ok desired' ∧
      ∀ key, Option.Rel (fun d d' : DesiredPeer => d'.policies.Perm d.policies)
        (desired.lookup key) (desired'.lookup key)

theorem desiredPeersFromMap_samePeer (h : (desiredPeersFromMap b map rng).1 = .ok desired)
    (hmap : List.Forall₂ SamePeer map.peers map'.peers) :
    ∃ desired', (desiredPeersFromMap b map' rng').1 = .ok desired' ∧
      ∀ key, Option.Rel (fun d d' : DesiredPeer => d'.policies.Perm d.policies)
        (desired.lookup key) (desired'.lookup key) := by
  obtain ⟨desired', h'⟩ := desiredPeersLoop_samePeer hmap hmap h ∅ rng' rfl
  refine ⟨desired', h', fun key => ?_⟩
  have hlast := lastPeer_samePeer hmap key
  rcases desiredPeersFromMap_lookup h key with ⟨p, d, hp, hd, hwanted⟩ | ⟨hp, hd⟩
  · rcases desiredPeersFromMap_lookup h' key with ⟨p', d', hp', hd', hwanted'⟩ | ⟨hp', -⟩
    · rw [hp, hp'] at hlast
      rw [hd, hd']
      cases hlast with
      | some hsame =>
        obtain ⟨policies', hpolicies', hperm⟩ := routePoliciesForPeer_samePeer hmap hsame
          hwanted.policies
        cases hwanted'.policies.symm.trans hpolicies'
        exact .some hperm
    · rw [hp, hp'] at hlast
      cases hlast
  · rcases desiredPeersFromMap_lookup h' key with ⟨p', d', hp', -⟩ | ⟨-, hd'⟩
    · rw [hp, hp'] at hlast
      cases hlast
    · rw [hd, hd']
      exact .none

/-- A map that is accepted is turned into what it should be if and only if no peer that a key stands
for has a relay route over another encoding of its own key. -/
theorem desiredPeersFromMap_spec_iff (h : (desiredPeersFromMap b map rng).1 = .ok desired) :
    Transformed b map desired ↔ ∀ key p, lastPeer map.peers key = some p → Unaliased map p := by
  have hkeys := mem_desired h
  constructor
  · intro hspec key p hlast route hroute id relay hkind hfound hown
    by_contra hlisted
    rcases desiredPeersFromMap_lookup h key with ⟨p', d, hlast', hlookup, hwanted⟩ | ⟨hnone, -⟩
    · cases hlast.symm.trans hlast'
      -- The route is taken, and leads back to the peer.
      have hpolicy : routePolicy map p route = some (.relay relay.publicKey route.priority) := by
        rw [routePolicy, hkind]
        simp only [hfound]
        exact if_neg hlisted
      obtain ⟨q, hq, hroutekey⟩ := exists_policy_of_resolves hwanted.policies hroute hpolicy
      cases q with
      | direct endpoint priority => cases hroutekey
      | relay k priority =>
        cases hroutekey
        exact (hspec.relays key d hlookup _ _ hq).2 (hown.trans (lastPeer_publicKey hlast))
    · cases hlast.symm.trans hnone
  · intro hunaliased
    have hpeers : ∀ key d, desired.lookup key = some d →
        ∃ p, lastPeer map.peers key = some p ∧ d.FromMap (IsKeyOf p) map p := by
      intro key d hd
      rcases desiredPeersFromMap_lookup h key with ⟨p, d', hlast, hlookup, hwanted⟩ | ⟨-, hlookup⟩
      · cases hd.symm.trans hlookup
        have hfrom := hwanted.fromMap
        exact ⟨p, hlast, hfrom.normalized.congr fun route hroute key' =>
          (hunaliased key p hlast).resolves_iff hroute key', hfrom.active⟩
      · cases hd.symm.trans hlookup
    have hrelays : ∀ key d, desired.lookup key = some d →
        ∀ relay priority, .relay relay priority ∈ d.policies → relay ∈ desired ∧ relay ≠ key := by
      intro key d hd relay priority hmem
      obtain ⟨p, hlast, hfrom⟩ := hpeers key d hd
      obtain ⟨peer, hpeer, rfl, hother⟩ := hfrom.normalized.relay hmem
      rw [IsKeyOf, lastPeer_publicKey hlast] at hother
      exact ⟨(hkeys _).mpr ⟨peer, hpeer, rfl⟩, hother⟩
    refine ⟨hkeys, hpeers, hrelays, fun key d hd i keepalive relay hconfig => ?_,
      fun map' rng' hmap => desiredPeersFromMap_samePeer h hmap⟩
    obtain ⟨priority, hmem⟩ := configForPolicy_relay hconfig
    exact hrelays key d hd relay priority hmem

end Peers

end Tendrilix.Control

namespace Tendrilix.Sample

open Control

def relayedPeer : NetMap.Peer where
  id := 3
  publicKey := (key 3).toKeyBytes
  tunnelIp := some (.v4 0x0a000301#32)
  isDirectory := true
  routes := [⟨9, .relay 2⟩, ⟨4, .direct none⟩, ⟨1, .relay 3⟩, ⟨3, .relay 2⟩, ⟨1, .relay 8⟩]

def netMapRelayed : NetMap.NetworkMap where
  updatedAt := netMap.updatedAt
  peers := [twoEndpoints, relayedPeer]

theorem desiredPeersFromMap_spec_iff_relayed :
    ∃ desired d, (desiredPeersFromMap build netMapRelayed ⟨fun _ => 1, 0⟩).1 = .ok desired ∧
      desired.lookup (key 3) = some d ∧ d.policies = [.relay (key 2) 3, .direct none 4] ∧
      Transformed build netMapRelayed desired := by
  have hcheck : okAnd (fun desired => (desired.lookup (key 3)).any fun d =>
      d.policies = [.relay (key 2) 3, .direct none 4])
      (desiredPeersFromMap build netMapRelayed ⟨fun _ => 1, 0⟩).1 = true := by decide +kernel
  have hplain : ∀ p ∈ netMapRelayed.peers, ∀ q ∈ netMapRelayed.peers,
      (q.publicKey : PublicKey) = p.publicKey → q.publicKey = p.publicKey := by decide +kernel
  obtain ⟨desired, h, hcheck⟩ := exists_of_okAnd hcheck
  obtain ⟨d, hlookup, hpolicies⟩ := (Option.any_eq_true _ _).mp hcheck
  refine ⟨desired, d, h, hlookup, of_decide_eq_true hpolicies,
    (desiredPeersFromMap_spec_iff h).mpr fun key p hlast route hroute id relay hkind hfound => ?_⟩
  exact hplain p (List.mem_reverse.mp (List.mem_of_find?_eq_some hlast)) relay
    (List.mem_of_find?_eq_some hfound)

def aliasOf (key : PublicKey) : KeyBytes where
  bytes := key.bytes.set 31 (key.bytes.getD 31 0 ||| 128)
  length_eq := by rw [List.length_set, key.length_eq]

def netMapAliased : NetMap.NetworkMap where
  updatedAt := netMap.updatedAt
  peers :=
    [{ relayedPeer with id := 2, publicKey := aliasOf (key 3), routes := [] },
      { relayedPeer with id := 1, routes := [⟨0, .relay 2⟩] }]

/-- The only policy of the peer relays over the peer itself. -/
theorem aliased_peer_relays_itself :
    ∃ desired d, (desiredPeersFromMap build netMapAliased ⟨fun _ => 1, 0⟩).1 = .ok desired ∧
      desired.lookup (key 3) = some d ∧ d.policies = [.relay (key 3) 0] ∧
      ¬Transformed build netMapAliased desired := by
  have hcheck : okAnd (fun desired => (desired.lookup (key 3)).any fun d =>
      d.policies = [.relay (key 3) 0])
      (desiredPeersFromMap build netMapAliased ⟨fun _ => 1, 0⟩).1 = true := by decide +kernel
  obtain ⟨desired, h, hcheck⟩ := exists_of_okAnd hcheck
  obtain ⟨d, hlookup, hpolicies⟩ := (Option.any_eq_true _ _).mp hcheck
  have hpolicies := of_decide_eq_true hpolicies
  refine ⟨desired, d, h, hlookup, hpolicies, fun hspec => ?_⟩
  have hmem : .relay (key 3) 0 ∈ d.policies := by
    rw [hpolicies]
    exact List.mem_singleton_self _
  exact (hspec.relays _ d hlookup _ _ hmem).2 rfl

end Tendrilix.Sample
