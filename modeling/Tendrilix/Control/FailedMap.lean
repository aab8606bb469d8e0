import Tendrilix.Control.Agreement
import Tendrilix.Control.RouteIdentity

/-!
# A map that fails half way

A pass over a map fails with the first operation that the device refuses. The tables that record the
map are written last, but the health of the peers has followed its route lists by then.
-/

namespace Tendrilix.Control

open Attempt
open NetMap (NetworkMap)

/-! ### Route lists that health already follows -/

namespace PeerHealth

variable {h : PeerHealth} {profile : Profile} {routes : List RouteKey} {activePolicy : ℕ}

structure Matches (h : PeerHealth) (routes : List RouteKey) : Prop where
  list : h.routes = routes
  active : h.activePolicy < routes.length
  fallback : ∀ f, h.recoveryFallback = some f → f < routes.length

theorem matches_iff : h.Matches routes ↔ h.routes = routes ∧ h.activePolicy < routes.length ∧
    ∀ f ∈ h.recoveryFallback, f < routes.length :=
  ⟨fun hm => ⟨hm.list, hm.active, hm.fallback⟩, fun hm => ⟨hm.1, hm.2.1, hm.2.2⟩⟩

instance : Decidable (h.Matches routes) := decidable_of_iff' _ matches_iff

theorem find?_of_nodup {α β : Type} [DecidableEq β] {f : α → β} {l : List α} (hnodup : (l.map f).Nodup)
    {a : α} (ha : a ∈ l) : l.find? (fun x => decide (f x = f a)) = some a := by
  induction l with
  | nil => simp at ha
  | cons x l ih =>
    rw [List.map_cons, List.nodup_cons] at hnodup
    by_cases hx : f x = f a
    · have hxa : x = a := by
        rcases List.mem_cons.mp ha with hax | hal
        · exact hax.symm
        · exact absurd (hx ▸ List.mem_map_of_mem hal) hnodup.1
      simp [hxa]
    · have hal : a ∈ l := (List.mem_cons.mp ha).resolve_left fun hax => hx (by rw [hax])
      simp [hx, ih hnodup.2 hal]

theorem routes_map_entryFor (hnodup : h.routes.Nodup) : h.routes.map h.entryFor = h.policyHealth := by
  rw [routes, List.map_map]
  conv_rhs => rw [← List.map_id h.policyHealth]
  apply List.map_congr_left
  intro entry hentry
  simp [entryFor, find?_of_nodup hnodup hentry]

theorem syncPolicies_eq_self_iff (hfits : ∀ capacity ∈ profile.maxRoutes, routes.length ≤ capacity)
    (hnodup : routes.Nodup) (hactive : activePolicy < routes.length) :
    h.syncPolicies profile activePolicy routes = h ↔
      h.routes = routes ∧ h.activePolicy = activePolicy ∧
        ∀ f, h.recoveryFallback = some f → f < routes.length := by
  have hmin : min activePolicy (routes.length - 1) = activePolicy := min_eq_left (by omega)
  have hfilter : h.recoveryFallback.filter (· < routes.length) = h.recoveryFallback ↔
      ∀ f, h.recoveryFallback = some f → f < routes.length := by
    cases h.recoveryFallback with
    | none => simp
    | some f => simp [Option.filter_some]
  constructor
  · intro hsame
    refine ⟨?_, ?_, hfilter.mp (congrArg recoveryFallback hsame)⟩
    · rw [← syncPolicies_routes h activePolicy hfits, hsame]
    · exact (congrArg PeerHealth.activePolicy hsame).symm.trans hmin
  · rintro ⟨hroutes, hpolicy, hfallback⟩
    have hentries : routes.map h.entryFor = h.policyHealth := by
      rw [← hroutes] at hnodup ⊢
      exact routes_map_entryFor hnodup
    have htake : profile.maxRoutes.elim (routes.map h.entryFor) (routes.map h.entryFor).take =
        h.policyHealth := by
      cases hmax : profile.maxRoutes with
      | none => exact hentries
      | some capacity =>
        rw [Option.elim_some, List.take_of_length_le, hentries]
        simpa using hfits capacity hmax
    rw [syncPolicies, htake, hmin, hfilter.mpr hfallback, ← hpolicy]

theorem syncPolicies_syncPolicies
    (hfits : ∀ capacity ∈ profile.maxRoutes, routes.length ≤ capacity) (hnodup : routes.Nodup)
    (hactive : activePolicy < routes.length) :
    (h.syncPolicies profile activePolicy routes).syncPolicies profile activePolicy routes =
      h.syncPolicies profile activePolicy routes := by
  rw [syncPolicies_eq_self_iff hfits hnodup hactive]
  refine ⟨syncPolicies_routes h activePolicy hfits, min_eq_left (by omega), fun f hf => ?_⟩
  simpa using (Option.filter_eq_some_iff.mp hf).2

end PeerHealth

/-! ### The route lists of desired peers -/

theorem RoutePolicy.sameRoute_iff {p q : RoutePolicy} :
    p.sameRoute q = true ↔ p.routeKey = q.routeKey := by
  cases p <;> cases q <;> simp [sameRoute, routeKey]

theorem RoutePolicy.setPriority_routeKey (p : RoutePolicy) (priority : UInt16) :
    (p.setPriority priority).routeKey = p.routeKey := by
  cases p <;> rfl

theorem dedupe_nodup {policies deduped : List RoutePolicy}
    (h : (deduped.map RoutePolicy.routeKey).Nodup) :
    ((dedupe policies deduped).map RoutePolicy.routeKey).Nodup := by
  induction policies generalizing deduped with
  | nil => exact h
  | cons policy policies ih =>
    rw [dedupe]
    split
    · apply ih
      have hsame : ∀ i, (deduped.modify i fun existing =>
          if policy.priority < existing.priority then existing.setPriority policy.priority
          else existing).map RoutePolicy.routeKey = deduped.map RoutePolicy.routeKey := by
        intro i
        apply List.ext_getElem?
        intro j
        simp only [List.getElem?_map, List.getElem?_modify]
        cases deduped[j]? with
        | none => rfl
        | some existing =>
          simp only [Option.map_eq_map, Option.map_some]
          repeat' split
          all_goals simp [RoutePolicy.setPriority_routeKey]
      rwa [hsame]
    · rename_i hnew
      apply ih
      rw [List.map_append, List.map_singleton, List.nodup_append]
      refine ⟨h, List.nodup_singleton _, fun a ha b hb => ?_⟩
      obtain ⟨existing, hexisting, rfl⟩ := List.mem_map.mp ha
      rw [List.mem_singleton] at hb
      subst hb
      rw [List.findIdx?_eq_none_iff] at hnew
      have hdiffers := hnew existing hexisting
      intro hkeys
      rw [RoutePolicy.sameRoute_iff.mpr hkeys] at hdiffers
      cases hdiffers

structure DesiredPeer.Listed (b : Build) (p : DesiredPeer) : Prop where
  fits : ∀ capacity ∈ b.profile.maxRoutes, (p.policies.map RoutePolicy.routeKey).length ≤ capacity
  nodup : (p.policies.map RoutePolicy.routeKey).Nodup
  nonempty : p.policies ≠ []

theorem DesiredPeer.Listed.setActivePolicy {b : Build} {p : DesiredPeer} (h : p.Listed b) (i : ℕ) :
    (p.setActivePolicy i).Listed b := ⟨h.fits, h.nodup, h.nonempty⟩

theorem routePoliciesForPeer_listed {b : Build} {map : NetworkMap} {peer : NetMap.Peer}
    {policies : List RoutePolicy} (h : routePoliciesForPeer b map peer = .ok policies) :
    (∀ capacity ∈ b.profile.maxRoutes, (policies.map RoutePolicy.routeKey).length ≤ capacity) ∧
      (policies.map RoutePolicy.routeKey).Nodup := by
  obtain ⟨candidates, -, h⟩ := bind_ok_iff.mp h
  obtain ⟨deduped, hdeduped, h⟩ := bind_ok_iff.mp h
  cases h
  obtain ⟨rfl, hfits⟩ := collect_eq_ok hdeduped
  have hperm := b.sort_perm (dedupe (if candidates.isEmpty then [.direct none 0] else candidates) [])
  refine ⟨fun capacity hcapacity => ?_, ?_⟩
  · rw [List.length_map, hperm.length_eq]
    exact hfits capacity hcapacity
  · rw [(hperm.map RoutePolicy.routeKey).nodup_iff]
    exact dedupe_nodup List.nodup_nil

def AllListed (b : Build) (desired : Bounded.Map PublicKey DesiredPeer) : Prop :=
  ∀ key peer, desired.lookup key = some peer → peer.Listed b

theorem AllListed.replace {b : Build} {desired : Bounded.Map PublicKey DesiredPeer} (h : AllListed b desired)
    {key : PublicKey} (hmem : key ∈ desired) {peer : DesiredPeer} (hpeer : peer.Listed b) :
    AllListed b (desired.replace key peer) := by
  intro other p hp
  rcases (Bounded.lookup_replace_eq_some_iff hmem).mp hp with ⟨rfl, rfl⟩ | ⟨-, hp⟩
  · exact hpeer
  · exact h _ _ hp

theorem desiredPeersFromMap_listed {b : Build} {map : NetworkMap} {rng : Rng}
    {desired : Bounded.Map PublicKey DesiredPeer}
    (h : (desiredPeersFromMap b map rng).1 = .ok desired) : AllListed b desired := by
  refine desiredPeersLoop_all (P := fun _ peer => peer.Listed b) (fun peer _ allowedIps policies i _
    hpolicies hi => ?_) (List.Subset.refl _) (fun _ _ h => by simp at h) (Prod.ext h rfl)
  obtain ⟨hfits, hnodup⟩ := routePoliciesForPeer_listed hpolicies
  exact ⟨hfits, hnodup, List.ne_nil_of_length_pos hi.pos⟩

namespace PeerReconciler

variable {C : Type} {b : Build} {map : NetworkMap} {now : ℕ} {order : List PublicKey}

/-! ### Health follows the new route lists -/

def carriedPolicy (r : PeerReconciler C) (key : PublicKey) (peer : DesiredPeer) (health : PeerHealth) :
    ℕ :=
  ((r.oldActiveRoute key health).bind fun route =>
    peer.policies.findIdx? (·.routeKey = route)).getD 0

theorem carriedPolicy_lt {peer : DesiredPeer} (hpeer : peer.Listed b) (r : PeerReconciler C)
    (key : PublicKey) (health : PeerHealth) :
    r.carriedPolicy key peer health < peer.policies.length := by
  have hpos : 0 < peer.policies.length := List.length_pos_iff.mpr hpeer.nonempty
  rw [carriedPolicy]
  cases hold : r.oldActiveRoute key health with
  | none => exact hpos
  | some route =>
    rw [Option.bind_some]
    cases hfound : peer.policies.findIdx? (·.routeKey = route) with
    | none => exact hpos
    | some i =>
      rw [List.findIdx?_eq_some_iff_getElem] at hfound
      exact hfound.1

/-- The map has the same routes, in the same order, for every peer whose health is known. -/
def KeepsRoutes (b : Build) (map : NetworkMap) (r : PeerReconciler C) : Prop :=
  ∀ desired, (desiredPeersFromMap b map r.rng).1 = .ok desired → ∀ key peer health,
    desired.lookup key = some peer → r.health.lookup key = some health →
      health.Matches (peer.policies.map RoutePolicy.routeKey)

theorem keepsRoutes_iff {r : PeerReconciler C} :
    KeepsRoutes b map r ↔ ∀ desired ∈ (desiredPeersFromMap b map r.rng).1.toOption,
      ∀ entry ∈ desired.entries, ∀ health ∈ r.health.lookup entry.1,
        health.Matches (entry.2.policies.map RoutePolicy.routeKey) := by
  rw [KeepsRoutes]
  cases (desiredPeersFromMap b map r.rng).1 with
  | error e => simp [Except.toOption]
  | ok desired =>
    constructor
    · intro h desired' hdesired entry hentry health hhealth
      cases hdesired
      exact h desired rfl entry.1 entry.2 health (AList.mem_lookup_iff.mpr hentry) hhealth
    · intro h desired' hdesired key peer health hlookup hhealth
      cases hdesired
      exact h desired rfl ⟨key, peer⟩ (AList.mem_lookup_iff.mp hlookup) health hhealth

instance {r : PeerReconciler C} : Decidable (KeepsRoutes b map r) :=
  decidable_of_iff' _ keepsRoutes_iff

theorem carriedPolicy_of_matches {peer : DesiredPeer} {health : PeerHealth} (hpeer : peer.Listed b)
    (h : health.Matches (peer.policies.map RoutePolicy.routeKey)) (r : PeerReconciler C)
    (key : PublicKey) : r.carriedPolicy key peer health = health.activePolicy := by
  have hlt : health.activePolicy < peer.policies.length := by simpa using h.active
  have hroute : health.activeRoute = some (peer.policies[health.activePolicy]).routeKey := by
    rw [PeerHealth.activeRoute_eq, h.list]
    simp [hlt]
  have hfound : peer.policies.findIdx? (fun p =>
      decide (p.routeKey = (peer.policies[health.activePolicy]).routeKey)) =
        some health.activePolicy := by
    rw [List.findIdx?_eq_some_iff_getElem]
    refine ⟨hlt, by simp, fun j hj => ?_⟩
    simp only [decide_eq_true_eq]
    intro hsame
    have hj' : j < (peer.policies.map RoutePolicy.routeKey).length := hj.trans h.active
    have heq := (@List.Nodup.getElem_inj_iff _ _ hpeer.nodup _ hj' _ h.active).mp (by simpa using hsame)
    omega
  rw [carriedPolicy, oldActiveRoute, hroute]
  simp [hfound]

theorem carryForwardPeer_of_health {key : PublicKey} {peer : DesiredPeer} (hpeer : peer.Listed b)
    {r : PeerReconciler C} {health : PeerHealth} (hhealth : r.health.lookup key = some health) :
    carryForwardPeer b key peer r =
      (peer.setActivePolicy (r.carriedPolicy key peer health), { r with
        health := r.health.replace key (health.syncPolicies b.profile
          (r.carriedPolicy key peer health) (peer.policies.map RoutePolicy.routeKey)) }) := by
  have hroutes : routeKeysForPolicies b peer.policies = .ok (peer.policies.map RoutePolicy.routeKey) := by
    rw [routeKeysForPolicies, collect, Bounded.collect, if_neg]
    · rfl
    · cases hmax : b.profile.maxRoutes with
      | none => simp
      | some capacity => simpa using hpeer.fits capacity hmax
  rw [carryForwardPeer, hhealth]
  dsimp only
  change (peer.setActivePolicy (r.carriedPolicy key peer health), _) = _
  have hpolicies : (peer.setActivePolicy (r.carriedPolicy key peer health)).policies = peer.policies :=
    rfl
  rw [carriedPolicy] at hpolicies ⊢
  rw [hpolicies, hroutes]

theorem carryForwardPeer_of_none {key : PublicKey} (peer : DesiredPeer) {r : PeerReconciler C}
    (hhealth : r.health.lookup key = none) : carryForwardPeer b key peer r = (peer, r) := by
  rw [carryForwardPeer, hhealth]

theorem carryForwardLoop_skip {k : PublicKey} (keys : List PublicKey)
    {desired : Bounded.Map PublicKey DesiredPeer} (r : PeerReconciler C)
    (hlookup : desired.lookup k = none) :
    carryForwardLoop b (k :: keys) desired r = carryForwardLoop b keys desired r := by
  rw [carryForwardLoop, hlookup]

theorem carryForwardLoop_visit {k : PublicKey} (keys : List PublicKey)
    {desired : Bounded.Map PublicKey DesiredPeer} (r : PeerReconciler C) {peer : DesiredPeer}
    (hlookup : desired.lookup k = some peer) :
    carryForwardLoop b (k :: keys) desired r =
      carryForwardLoop b keys (desired.replace k (carryForwardPeer b k peer r).1)
        (carryForwardPeer b k peer r).2 := by
  rw [carryForwardLoop, hlookup]

theorem carryForwardPeer_frame {key : PublicKey} {peer : DesiredPeer} (hpeer : peer.Listed b)
    (r : PeerReconciler C) :
    (carryForwardPeer b key peer r).1.Listed b ∧
      (carryForwardPeer b key peer r).2.desired = r.desired ∧
      ∀ other, other ≠ key →
        (carryForwardPeer b key peer r).2.health.lookup other = r.health.lookup other := by
  cases hhealth : r.health.lookup key with
  | none =>
    rw [carryForwardPeer_of_none peer hhealth]
    exact ⟨hpeer, rfl, fun _ _ => rfl⟩
  | some health =>
    rw [carryForwardPeer_of_health hpeer hhealth]
    exact ⟨hpeer.setActivePolicy _, rfl, fun other hother => Bounded.lookup_replace_ne _ hother⟩

theorem carryForwardLoop_other {keys : List PublicKey} {desired : Bounded.Map PublicKey DesiredPeer}
    (hdesired : AllListed b desired) {r : PeerReconciler C} {key : PublicKey} (hkey : key ∉ keys) :
    (carryForwardLoop b keys desired r).1.lookup key = desired.lookup key ∧
      (carryForwardLoop b keys desired r).2.health.lookup key = r.health.lookup key := by
  induction keys generalizing desired r with
  | nil => exact ⟨rfl, rfl⟩
  | cons k keys ih =>
    rw [List.mem_cons, not_or] at hkey
    cases hlookup : desired.lookup k with
    | none =>
      rw [carryForwardLoop_skip keys r hlookup]
      exact ih hdesired hkey.2
    | some peer =>
      rw [carryForwardLoop_visit keys r hlookup]
      obtain ⟨hlisted, -, hothers⟩ := carryForwardPeer_frame (hdesired k peer hlookup) r
      obtain ⟨hplace, hhealth⟩ := ih (r := (carryForwardPeer b k peer r).2)
        (hdesired.replace (Bounded.mem_of_lookup hlookup) hlisted) hkey.2
      exact ⟨hplace.trans (Bounded.lookup_replace_ne _ hkey.1), hhealth.trans (hothers key hkey.1)⟩

theorem carryForwardLoop_none {keys : List PublicKey} {desired : Bounded.Map PublicKey DesiredPeer}
    (hdesired : AllListed b desired) {r : PeerReconciler C} {key : PublicKey}
    (hnone : r.health.lookup key = none) :
    (carryForwardLoop b keys desired r).2.health.lookup key = none := by
  induction keys generalizing desired r with
  | nil => exact hnone
  | cons k keys ih =>
    cases hlookup : desired.lookup k with
    | none =>
      rw [carryForwardLoop_skip keys r hlookup]
      exact ih hdesired hnone
    | some peer =>
      rw [carryForwardLoop_visit keys r hlookup]
      obtain ⟨hlisted, -, hothers⟩ := carryForwardPeer_frame (hdesired k peer hlookup) r
      apply ih (hdesired.replace (Bounded.mem_of_lookup hlookup) hlisted)
      by_cases hk : key = k
      · subst hk
        rw [carryForwardPeer_of_none peer hnone]
        exact hnone
      · exact (hothers key hk).trans hnone

theorem carryForwardLoop_visited {keys : List PublicKey} (hnodup : keys.Nodup)
    {desired : Bounded.Map PublicKey DesiredPeer} (hdesired : AllListed b desired)
    {r : PeerReconciler C} {key : PublicKey} (hkey : key ∈ keys) {peer : DesiredPeer}
    (hlookup : desired.lookup key = some peer) {health : PeerHealth}
    (hhealth : r.health.lookup key = some health) :
    (carryForwardLoop b keys desired r).1.lookup key =
        some (peer.setActivePolicy (r.carriedPolicy key peer health)) ∧
      (carryForwardLoop b keys desired r).2.health.lookup key =
        some (health.syncPolicies b.profile (r.carriedPolicy key peer health)
          (peer.policies.map RoutePolicy.routeKey)) := by
  induction keys generalizing desired r with
  | nil => simp at hkey
  | cons k keys ih =>
    rw [List.nodup_cons] at hnodup
    by_cases hk : key = k
    · subst hk
      rw [carryForwardLoop_visit keys r hlookup]
      have hcarried := carryForwardPeer_of_health (hdesired key peer hlookup) hhealth
      have hmem := Bounded.mem_of_lookup hlookup
      obtain ⟨hlisted, -, -⟩ := carryForwardPeer_frame (hdesired key peer hlookup) r
      obtain ⟨hplace, hkept⟩ := carryForwardLoop_other (r := (carryForwardPeer b key peer r).2)
        (hdesired.replace hmem hlisted) hnodup.1
      refine ⟨hplace.trans ?_, hkept.trans ?_⟩
      · rw [Bounded.lookup_replace_self _ hmem, hcarried]
      · rw [hcarried]
        exact Bounded.lookup_replace_self _ (Bounded.mem_of_lookup hhealth)
    · have hrest : key ∈ keys := (List.mem_cons.mp hkey).resolve_left hk
      cases hfirst : desired.lookup k with
      | none =>
        rw [carryForwardLoop_skip keys r hfirst]
        exact ih hnodup.2 hdesired hrest hlookup hhealth
      | some first =>
        rw [carryForwardLoop_visit keys r hfirst]
        obtain ⟨hlisted, hbefore, hothers⟩ := carryForwardPeer_frame (hdesired k first hfirst) r
        have hsame : (carryForwardPeer b k first r).2.carriedPolicy key peer health =
            r.carriedPolicy key peer health := by
          rw [carriedPolicy, carriedPolicy, oldActiveRoute, oldActiveRoute, hbefore]
        have hlater := ih hnodup.2 (hdesired.replace (Bounded.mem_of_lookup hfirst) hlisted)
          (r := (carryForwardPeer b k first r).2) hrest
          ((Bounded.lookup_replace_ne _ hk).trans hlookup) ((hothers key hk).trans hhealth)
        rw [hsame] at hlater
        exact hlater

/-! ### What is done on the device -/

section Device

variable {installed : C → PublicKey → Option PeerConfig} {wanted : Bounded.Map PublicKey DesiredPeer}
  {r₁ s : PeerReconciler C}

def Removed (installed : C → PublicKey → Option PeerConfig) (r r' : PeerReconciler C)
    (key : PublicKey) : Prop :=
  (installed r.client key).isSome ∧ installed r'.client key = none

/-- The state of a pass that may still fail, seen from the state in which the device was first
called. -/
structure Aborting (installed : C → PublicKey → Option PeerConfig)
    (wanted : Bounded.Map PublicKey DesiredPeer) (r₁ s : PeerReconciler C) : Prop where
  desired : s.desired = r₁.desired
  directories : s.directories = r₁.directories
  lastApplied : s.lastAppliedMapUpdatedAt = r₁.lastAppliedMapUpdatedAt
  configured : ∀ key ∈ wanted, (installed r₁.client key).isSome → (installed s.client key).isSome
  health : ∀ key ∈ wanted, ∀ health, r₁.health.lookup key = some health →
    s.health.lookup key = some health
  unwanted : ∀ key, key ∉ wanted → ∀ health, r₁.health.lookup key = some health →
    s.health.lookup key = some health ∨ Removed installed r₁ s key

theorem Aborting.refl : Aborting installed wanted r₁ r₁ :=
  ⟨rfl, rfl, rfl, fun _ _ h => h, fun _ _ _ h => h, fun _ _ _ h => .inl h⟩

theorem Aborting.client {c : C} (h : Aborting installed wanted r₁ s)
    (hkept : ∀ key ∈ wanted, (installed s.client key).isSome → (installed c key).isSome)
    (hsame : ∀ key, key ∉ wanted → installed c key = installed s.client key) :
    Aborting installed wanted r₁ { s with client := c } where
  desired := h.desired
  directories := h.directories
  lastApplied := h.lastApplied
  configured key hkey hsome := hkept key hkey (h.configured key hkey hsome)
  health := h.health
  unwanted key hkey health hhealth := by
    rcases h.unwanted key hkey health hhealth with hstays | ⟨hbefore, hafter⟩
    · exact .inl hstays
    · exact .inr ⟨hbefore, (hsame key hkey).trans hafter⟩

theorem Aborting.same_client {c : C} (h : Aborting installed wanted r₁ s)
    (hsame : installed c = installed s.client) :
    Aborting installed wanted r₁ { s with client := c } :=
  h.client (fun key _ hsome => by rwa [hsame]) fun key _ => by rw [hsame]

theorem Aborting.write {c : C} {config : PeerConfig} (h : Aborting installed wanted r₁ s)
    (hwanted : config.publicKey ∈ wanted)
    (hinstalled : installed c = Function.update (installed s.client) config.publicKey (some config)) :
    Aborting installed wanted r₁ { s with client := c } := by
  refine h.client (fun key _ hsome => ?_) fun key hkey => ?_
  · rw [hinstalled]
    by_cases hk : key = config.publicKey
    · subst hk
      simp
    · rwa [Function.update_of_ne hk]
  · have hk : key ≠ config.publicKey := by
      rintro rfl
      exact hkey hwanted
    rw [hinstalled, Function.update_of_ne hk]

theorem insertFingerprint_aborting (key : PublicKey) (f : ℕ) :
    Triple (Aborting installed wanted r₁) (insertFingerprint b key f)
      (fun _ => Aborting installed wanted r₁) (Aborting installed wanted r₁) := by
  refine insertFingerprint_triple (fun s hs => ?_) fun s hs _ => hs
  exact ⟨hs.desired, hs.directories, hs.lastApplied, hs.configured, hs.health, hs.unwanted⟩

def Steady (b : Build) (wanted : Bounded.Map PublicKey DesiredPeer) (r₁ : PeerReconciler C) : Prop :=
  ∀ key peer health, wanted.lookup key = some peer → r₁.health.lookup key = some health →
    health.syncPolicies b.profile peer.activePolicyIndex (peer.policies.map RoutePolicy.routeKey) =
      health

theorem trackActivePolicy_aborting (hsteady : Steady b wanted r₁) {key : PublicKey}
    {peer : DesiredPeer} (hpeer : wanted.lookup key = some peer) (now : ℕ) :
    Triple (Aborting installed wanted r₁)
      (trackActivePolicy b key peer.activePolicyIndex (peer.policies.map RoutePolicy.routeKey) now)
      (fun _ => Aborting installed wanted r₁) (Aborting installed wanted r₁) := by
  have hmem := Bounded.mem_of_lookup hpeer
  have hother : ∀ {other}, other ∉ wanted → other ≠ key := by
    rintro other hother rfl
    exact hother hmem
  refine trackActivePolicy_triple (fun s health hs hlookup => ?_) (fun s rng health hs hnone => ?_)
    fun s rng hs _ => ?_
  · refine ⟨hs.desired, hs.directories, hs.lastApplied, hs.configured,
      fun other hwanted h hh => ?_, fun other hunwanted h hh => ?_⟩
    · by_cases hk : other = key
      · subst hk
        have hsame := hs.health other hmem h hh
        cases hlookup.symm.trans hsame
        dsimp only
        rw [hsteady other peer health hpeer hh]
        exact Bounded.lookup_replace_self _ (Bounded.mem_of_lookup hlookup)
      · exact (Bounded.lookup_replace_ne _ hk).trans (hs.health other hwanted h hh)
    · rcases hs.unwanted other hunwanted h hh with hstays | hremoved
      · exact .inl ((Bounded.lookup_replace_ne _ (hother hunwanted)).trans hstays)
      · exact .inr hremoved
  · refine ⟨hs.desired, hs.directories, hs.lastApplied, hs.configured,
      fun other hwanted h hh => ?_, fun other hunwanted h hh => ?_⟩
    · have hk : other ≠ key := by
        rintro rfl
        cases hnone.symm.trans (hs.health other hwanted h hh)
      exact (AList.lookup_insert_ne hk).trans (hs.health other hwanted h hh)
    · rcases hs.unwanted other hunwanted h hh with hstays | hremoved
      · exact .inl ((AList.lookup_insert_ne (hother hunwanted)).trans hstays)
      · exact .inr hremoved
  · exact ⟨hs.desired, hs.directories, hs.lastApplied, hs.configured, hs.health, hs.unwanted⟩

def carriedForward (b : Build) (order : List PublicKey) (r : PeerReconciler C)
    (desired : Bounded.Map PublicKey DesiredPeer) (rng : Rng) :
    Bounded.Map PublicKey DesiredPeer × PeerReconciler C :=
  carryForwardLoop b (Bounded.reorder order desired).keys (Bounded.reorder order desired)
    { r with rng := rng }

theorem carriedForward_listed {desired : Bounded.Map PublicKey DesiredPeer} {rng : Rng}
    {r : PeerReconciler C} (hdesired : desiredPeersFromMap b map r.rng = (.ok desired, rng)) :
    AllListed b (Bounded.reorder order desired) := by
  intro key peer hlookup
  rw [Bounded.lookup_reorder] at hlookup
  exact desiredPeersFromMap_listed (by rw [hdesired]) key peer hlookup

theorem carriedForward_health {desired : Bounded.Map PublicKey DesiredPeer} {rng : Rng}
    {r : PeerReconciler C} (hdesired : desiredPeersFromMap b map r.rng = (.ok desired, rng))
    {key : PublicKey} {peer : DesiredPeer} (hlookup : desired.lookup key = some peer)
    {health : PeerHealth} (hhealth : r.health.lookup key = some health) :
    (carriedForward b order r desired rng).1.lookup key =
        some (peer.setActivePolicy (carriedPolicy { r with rng := rng } key peer health)) ∧
      (carriedForward b order r desired rng).2.health.lookup key =
        some (health.syncPolicies b.profile (carriedPolicy { r with rng := rng } key peer health)
          (peer.policies.map RoutePolicy.routeKey)) := by
  have hmem : key ∈ (Bounded.reorder order desired).keys :=
    Bounded.mem_reorder.mpr (Bounded.mem_of_lookup hlookup)
  exact carryForwardLoop_visited (Bounded.reorder order desired).keys_nodup
    (carriedForward_listed hdesired) (r := { r with rng := rng }) hmem
    ((Bounded.lookup_reorder order desired key).trans hlookup) hhealth

theorem carriedForward_other {desired : Bounded.Map PublicKey DesiredPeer} {rng : Rng}
    {r : PeerReconciler C} (hdesired : desiredPeersFromMap b map r.rng = (.ok desired, rng))
    {key : PublicKey} (hlookup : desired.lookup key = none) :
    (carriedForward b order r desired rng).2.health.lookup key = r.health.lookup key := by
  refine (carryForwardLoop_other (carriedForward_listed hdesired) ?_).2
  rw [← AList.mem_keys, Bounded.mem_reorder, ← AList.lookup_eq_none]
  exact hlookup

theorem carriedForward_spec (order : List PublicKey) {desired : Bounded.Map PublicKey DesiredPeer} {rng : Rng}
    {r : PeerReconciler C} (hdesired : desiredPeersFromMap b map r.rng = (.ok desired, rng)) :
    (∀ key, key ∈ (carriedForward b order r desired rng).1 ↔ key ∈ desired) ∧
    (∀ key peer, (carriedForward b order r desired rng).1.lookup key = some peer →
      peer.publicKey = key) ∧
    ∃ health, (carriedForward b order r desired rng).2 = { r with rng := rng, health := health } := by
  have hrendered : AllRendered (fun _ => True) (Bounded.reorder order desired) := by
    intro key peer hlookup
    rw [Bounded.lookup_reorder] at hlookup
    exact desiredPeersLoop_rendered (fun _ _ => trivial) (List.Subset.refl _)
      (fun _ _ h => by simp at h) hdesired key peer hlookup
  obtain ⟨hcarried, hkeys, hshape⟩ := carryForwardLoop_spec (b := b)
    (Bounded.reorder order desired).keys hrendered { r with rng := rng }
  exact ⟨fun key => (hkeys key).trans Bounded.mem_reorder,
    fun key peer hlookup => (hcarried key peer hlookup).publicKey, hshape⟩

theorem carriedForward_steady {desired : Bounded.Map PublicKey DesiredPeer} {rng : Rng}
    {r : PeerReconciler C} (hdesired : desiredPeersFromMap b map r.rng = (.ok desired, rng)) :
    Steady b (carriedForward b order r desired rng).1 (carriedForward b order r desired rng).2 := by
  intro key peer health hlookup hhealth
  have hkey : key ∈ desired :=
    ((carriedForward_spec order hdesired).1 key).mp (Bounded.mem_of_lookup hlookup)
  obtain ⟨peer₀, hpeer₀⟩ := Option.isSome_iff_exists.mp (AList.lookup_isSome.mpr hkey)
  cases hold : r.health.lookup key with
  | none =>
    have hnone : (carriedForward b order r desired rng).2.health.lookup key = none :=
      carryForwardLoop_none (carriedForward_listed hdesired) hold
    cases hhealth.symm.trans hnone
  | some health₀ =>
    obtain ⟨hplace, hfollowed⟩ := carriedForward_health hdesired hpeer₀ hold
    cases hlookup.symm.trans hplace
    cases hhealth.symm.trans hfollowed
    have hpeer : peer₀.Listed b := desiredPeersFromMap_listed (by rw [hdesired]) key peer₀ hpeer₀
    have hlt := carriedPolicy_lt hpeer { r with rng := rng } key health₀
    have hindex : (peer₀.setActivePolicy
        (carriedPolicy { r with rng := rng } key peer₀ health₀)).activePolicyIndex =
          carriedPolicy { r with rng := rng } key peer₀ health₀ := by
      simp only [DesiredPeer.activePolicyIndex, DesiredPeer.setActivePolicy]
      omega
    rw [hindex]
    exact PeerHealth.syncPolicies_syncPolicies hpeer.fits hpeer.nodup (by simpa using hlt)

variable [DeviceClient C]

theorem removeVanishedPeer_aborting (hledger : Ledger installed) {key : PublicKey}
    (hkey : (installed r₁.client key).isSome) :
    Triple (Aborting installed wanted r₁) (removeVanishedPeer wanted key)
      (fun _ => Aborting installed wanted r₁) (Aborting installed wanted r₁) := by
  rw [removeVanishedPeer]
  split
  · exact Triple.pure () fun s hs => hs
  · rename_i hunwanted
    refine Triple.bind (Q := fun _ s => Aborting installed wanted r₁ s ∧ installed s.client key = none)
      (callClient_triple (fun s _ c hs hop => ?_) fun s e c hs hop => ?_) fun _ => Triple.modify ?_
    · have hinstalled := hledger.remove_ok _ _ _ hop
      have hrest : ∀ other, other ≠ key → installed c other = installed s.client other := by
        intro other hne
        rw [hinstalled, Function.update_of_ne hne]
      refine ⟨⟨hs.desired, hs.directories, hs.lastApplied, fun other hwanted hsome => ?_, hs.health,
        fun other hother health hhealth => ?_⟩, by simp [hinstalled]⟩
      · have hne : other ≠ key := by
          rintro rfl
          exact hunwanted hwanted
        exact (congrArg Option.isSome (hrest other hne)).trans (hs.configured other hwanted hsome)
      · rcases hs.unwanted other hother health hhealth with hstays | ⟨hbefore, hafter⟩
        · exact .inl hstays
        · by_cases hne : other = key
          · subst hne
            exact .inr ⟨hbefore, by simp [hinstalled]⟩
          · exact .inr ⟨hbefore, (hrest other hne).trans hafter⟩
    · exact hs.same_client (hledger.remove_error _ _ _ _ hop)
    · rintro s ⟨hs, hgone⟩
      refine ⟨hs.desired, hs.directories, hs.lastApplied, hs.configured,
        fun other hother health hhealth => ?_, fun other hother health hhealth => ?_⟩
      · have hne : other ≠ key := by
          rintro rfl
          exact hunwanted hother
        exact (AList.lookup_erase_ne hne).trans (hs.health other hother health hhealth)
      · by_cases hne : other = key
        · subst hne
          exact .inr ⟨hkey, hgone⟩
        · rcases hs.unwanted other hother health hhealth with hstays | hremoved
          · exact .inl ((AList.lookup_erase_ne hne).trans hstays)
          · exact .inr hremoved

theorem applyConfig_aborting (hledger : Ledger installed) (actual : List PublicKey)
    {config : PeerConfig} (hwanted : config.publicKey ∈ wanted) :
    Triple (Aborting installed wanted r₁) (applyConfig b actual config.publicKey config)
      (fun _ => Aborting installed wanted r₁) (Aborting installed wanted r₁) := by
  have hwrite : ∀ {op : C → Call (Except Device.Error Unit × C)},
      (∀ c c', op c = .ok (.ok (), c') →
        installed c' = Function.update (installed c) config.publicKey (some config)) →
      (∀ c e c', op c = .ok (.error e, c') → installed c' = installed c) →
      Triple (Aborting installed wanted r₁)
        (do callClient op; insertFingerprint b config.publicKey (b.fingerprint config))
        (fun _ => Aborting installed wanted r₁) (Aborting installed wanted r₁) := by
    intro op hok herror
    refine Triple.bind (callClient_triple (fun s _ c hs hop => ?_) fun s e c hs hop => ?_) fun _ =>
      insertFingerprint_aborting _ _
    · exact hs.write hwanted (hok _ _ hop)
    · exact hs.same_client (herror _ _ _ hop)
  rw [applyConfig]
  split
  · apply Triple.bind Triple.get
    intro r
    split
    · exact (hwrite (hledger.update_ok config) (hledger.update_error config)).mono (fun _ hs => hs.2)
        (fun _ _ hs => hs) fun _ hs => hs
    · exact Triple.pure () fun s hs => hs.2
  · exact hwrite (hledger.add_ok config) (hledger.add_error config)

def finishMap (b : Build) (map : NetworkMap) (now : ℕ) (wanted : Bounded.Map PublicKey DesiredPeer) :
    Pass C Bool := do
  let actual ← callClient DeviceClient.listPeers
  removeVanishedPeers actual wanted
  applyDesiredPeers b actual wanted now
  let directories ← ofExcept (directoryServersFromMap b map)
  modify fun r => { r with
    directories := directories
    desired := wanted
    lastAppliedMapUpdatedAt := some map.updatedAt }
  pure true

theorem reconcileNetworkMap_cases {outcome : Except ReconcileError Bool} {r r' : PeerReconciler C}
    (h : reconcileNetworkMap b map now order r = .ok (outcome, r')) :
    (outcome = .ok false ∧ r' = r) ∨
    (∃ e rng, desiredPeersFromMap b map r.rng = (.error e, rng) ∧ outcome = .error e ∧
      r' = { r with rng := rng }) ∨
    ∃ desired rng, desiredPeersFromMap b map r.rng = (.ok desired, rng) ∧
      finishMap b map now (carriedForward b order r desired rng).1
        (carriedForward b order r desired rng).2 = .ok (outcome, r') := by
  rw [reconcileNetworkMap, bind_of_ok (rfl : get r = .ok (.ok r, r))] at h
  split at h
  · cases h
    exact .inl ⟨rfl, rfl⟩
  · right
    cases hdesired : desiredPeersFromMap b map r.rng with
    | mk computed rng =>
      rw [hdesired] at h
      cases computed with
      | error e =>
        cases h
        exact .inl ⟨e, rng, rfl, rfl, rfl⟩
      | ok desired => exact .inr ⟨desired, rng, rfl, h⟩

theorem applyPeer_aborting (hledger : Ledger installed) (hsteady : Steady b wanted r₁)
    (actual : List PublicKey) {key : PublicKey} {peer : DesiredPeer} (hkey : peer.publicKey = key)
    (hpeer : wanted.lookup key = some peer) (now : ℕ) :
    Triple (Aborting installed wanted r₁) (applyPeer b actual now ⟨key, peer⟩)
      (fun _ => Aborting installed wanted r₁) (Aborting installed wanted r₁) := by
  subst hkey
  have hwanted : peer.config.publicKey ∈ wanted := Bounded.mem_of_lookup hpeer
  refine Triple.bind (applyConfig_aborting hledger actual hwanted) fun _ => ?_
  refine Triple.bind (Q := fun routes s => Aborting installed wanted r₁ s ∧
    routeKeysForPolicies b peer.policies = .ok routes)
    (Triple.ofExcept (fun routes hroutes s hs => ⟨hs, hroutes⟩) fun s hs => hs) fun routes => ?_
  apply Triple.assume
  intro hroutes
  obtain ⟨rfl, -⟩ := routeKeysForPolicies_eq_ok hroutes
  exact trackActivePolicy_aborting hsteady hpeer now

theorem finishMap_aborting (hledger : Ledger installed) (hsteady : Steady b wanted r₁)
    (hkeys : ∀ key peer, wanted.lookup key = some peer → peer.publicKey = key) (map : NetworkMap)
    (now : ℕ) :
    Triple (· = r₁) (finishMap b map now wanted) (fun _ _ => True) (Aborting installed wanted r₁) := by
  refine Triple.bind (Q := fun actual s => Aborting installed wanted r₁ s ∧
    ∀ key ∈ actual, (installed r₁.client key).isSome)
    (callClient_triple (fun s actual c hs hop => ?_) fun s e c hs hop => ?_) fun actual => ?_
  · subst hs
    have hsame := hledger.list _ _ _ hop
    refine ⟨Aborting.refl.same_client hsame, fun key hkey => ?_⟩
    exact (hledger.list_ok _ _ _ hop key).mp hkey
  · subst hs
    exact Aborting.refl.same_client (hledger.list _ _ _ hop)
  apply Triple.assume
  intro hactual
  refine Triple.bind (Triple.forEach (I := fun _ _ => Aborting installed wanted r₁) actual
    fun done key left hsplit => removeVanishedPeer_aborting hledger (hactual key (by simp [hsplit])))
    fun _ => ?_
  refine Triple.bind (Triple.forEach (I := fun _ _ => Aborting installed wanted r₁) wanted.entries
    fun done entry left hsplit => ?_) fun _ => ?_
  · have hlookup : wanted.lookup entry.1 = some entry.2 :=
      AList.mem_lookup_iff.mpr (by rw [hsplit]; simp)
    exact applyPeer_aborting hledger hsteady actual (hkeys _ _ hlookup) hlookup now
  · refine Triple.bind (Triple.ofExcept (Q := fun _ => Aborting installed wanted r₁)
      (fun _ _ s hs => hs) fun s hs => hs) fun _ => ?_
    exact Triple.bind (Triple.modify (R := fun _ _ => True) fun _ _ => trivial) fun _ =>
      Triple.pure true fun _ _ => trivial

/-! ### A failed pass -/

structure Undisturbed (installed : C → PublicKey → Option PeerConfig) (r r' : PeerReconciler C) :
    Prop where
  desired : r'.desired = r.desired
  directories : r'.directories = r.directories
  lastApplied : r'.lastAppliedMapUpdatedAt = r.lastAppliedMapUpdatedAt
  health : ∀ key health, r.health.lookup key = some health → ¬Removed installed r r' key →
    r'.health.lookup key = some health

/-- A pass that fails leaves everything that routes are selected by as it was, if and only if the map
has the same routes for every peer whose health is known. -/
theorem reconcileNetworkMap_undisturbed_iff (hledger : Ledger installed) {e : ReconcileError}
    {r r' : PeerReconciler C}
    (hrun : reconcileNetworkMap b map now order r = .ok (.error e, r')) :
    Undisturbed installed r r' ↔ KeepsRoutes b map r := by
  rcases reconcileNetworkMap_cases hrun with
    ⟨hstale, -⟩ | ⟨e, rng, hdesired, -, rfl⟩ | ⟨desired, rng, hdesired, hfinish⟩
  · cases hstale
  · constructor
    · intro _ desired hok
      rw [hdesired] at hok
      cases hok
    · exact fun _ => ⟨rfl, rfl, rfl, fun _ _ hhealth _ => hhealth⟩
  · obtain ⟨hkeys, hpublicKeys, table, hshape⟩ := carriedForward_spec order hdesired
    have haborted := finishMap_aborting hledger (carriedForward_steady hdesired) hpublicKeys map now _
      rfl _ _ hfinish
    have hclient : (carriedForward b order r desired rng).2.client = r.client := by rw [hshape]
    constructor
    · intro hsame desired' hok key peer health hlookup hhealth
      rw [hdesired] at hok
      cases hok
      have hpeer : peer.Listed b := desiredPeersFromMap_listed (by rw [hdesired]) key peer hlookup
      have hwanted := (hkeys key).mpr (Bounded.mem_of_lookup hlookup)
      have hstays : ¬Removed installed r r' key := by
        rintro ⟨hbefore, hafter⟩
        rw [← hclient] at hbefore
        have hsome := haborted.configured key hwanted hbefore
        rw [hafter] at hsome
        cases hsome
      have hafter := haborted.health key hwanted _ (carriedForward_health hdesired hlookup hhealth).2
      have hlt : carriedPolicy { r with rng := rng } key peer health <
          (peer.policies.map RoutePolicy.routeKey).length := by
        simpa using carriedPolicy_lt hpeer { r with rng := rng } key health
      have hsync := Option.some.inj (hafter.symm.trans (hsame.health key health hhealth hstays))
      obtain ⟨hlist, hactive, hfallback⟩ :=
        (PeerHealth.syncPolicies_eq_self_iff hpeer.fits hpeer.nodup hlt).mp hsync
      exact ⟨hlist, hactive ▸ hlt, hfallback⟩
    · intro hroutes
      refine ⟨haborted.desired.trans (by rw [hshape]), haborted.directories.trans (by rw [hshape]),
        haborted.lastApplied.trans (by rw [hshape]), fun key health hhealth hstays => ?_⟩
      cases hlookup : desired.lookup key with
      | some peer =>
        have hpeer : peer.Listed b := desiredPeersFromMap_listed (by rw [hdesired]) key peer hlookup
        have hmatches := hroutes desired (by rw [hdesired]) key peer health hlookup hhealth
        have hafter := haborted.health key ((hkeys key).mpr (Bounded.mem_of_lookup hlookup)) _
          (carriedForward_health hdesired hlookup hhealth).2
        rw [carriedPolicy_of_matches hpeer hmatches] at hafter
        rwa [(PeerHealth.syncPolicies_eq_self_iff hpeer.fits hpeer.nodup hmatches.active).mpr
          ⟨hmatches.list, rfl, hmatches.fallback⟩] at hafter
      | none =>
        have hunwanted : key ∉ (carriedForward b order r desired rng).1 := by
          rw [hkeys, ← AList.lookup_eq_none]
          exact hlookup
        rcases haborted.unwanted key hunwanted health
          ((carriedForward_other hdesired hlookup).trans hhealth) with hsame | ⟨hbefore, hafter⟩
        · exact hsame
        · rw [hclient] at hbefore
          exact absurd ⟨hbefore, hafter⟩ hstays

end Device

end PeerReconciler

end Tendrilix.Control

/-! ### A map that the device fails to take -/

namespace Tendrilix.Sample

open Control PeerReconciler

def listRefused : FlakyDevice := { refusals := [false, false, true] }

def netMapShortened : NetMap.NetworkMap where
  updatedAt := ⟨2, 0, by decide, NetMap.DateTime.zero_nanos_lt, by decide⟩
  peers := [{ twoEndpoints with routes := [⟨1, .direct (some (addr 3))⟩] }]

def netMapMoved : NetMap.NetworkMap where
  updatedAt := ⟨2, 0, by decide, NetMap.DateTime.zero_nanos_lt, by decide⟩
  peers := [{ twoEndpoints with tunnelIp := some (.v4 0x0a000207#32) }]

def refusedAnd (map : NetMap.NetworkMap)
    (p : PeerReconciler FlakyDevice → PeerReconciler FlakyDevice → Bool) : Bool :=
  okAnd (fun q => okAnd (fun q' => decide (q'.1 = .error (.device .io)) && p q.2 q'.2)
      (reconcileNetworkMap build map 0 [] q.2))
    (Machine.run (step build) (new listRefused [] ⟨fun _ => 0, 0⟩) [.networkMap netMap 0 []])

theorem exists_of_refusedAnd {map : NetMap.NetworkMap}
    {p : PeerReconciler FlakyDevice → PeerReconciler FlakyDevice → Bool}
    (h : refusedAnd map p = true) :
    ∃ os r r', Machine.run (step build) (new listRefused [] ⟨fun _ => 0, 0⟩) [.networkMap netMap 0 []] =
        .ok (os, r) ∧
      reconcileNetworkMap build map 0 [] r = .ok (.error (.device .io), r') ∧ p r r' = true := by
  rw [refusedAnd] at h
  obtain ⟨⟨os, r⟩, hrun, hrefused⟩ := exists_of_okAnd h
  obtain ⟨⟨o, r'⟩, hfailed, hp⟩ := exists_of_okAnd hrefused
  rw [Bool.and_eq_true, decide_eq_true_eq] at hp
  dsimp only at hp
  obtain ⟨rfl, hp⟩ := hp
  exact ⟨os, r, r', hrun, hfailed, hp⟩

/-- The map was not applied, but the route in use is no longer known. -/
theorem refused_map_forgets_route :
    ∃ os r r', Machine.run (step build) (new listRefused [] ⟨fun _ => 0, 0⟩) [.networkMap netMap 0 []] =
        .ok (os, r) ∧
      reconcileNetworkMap build netMapShortened 0 [] r = .ok (.error (.device .io), r') ∧
      (r.health.lookup (key 2)).bind (·.activeRoute) = some (.direct (some (addr 2))) ∧
      (r'.health.lookup (key 2)).bind (·.activeRoute) = some (.direct (some (addr 3))) ∧
      FlakyDevice.installed r'.client (key 2) = FlakyDevice.installed r.client (key 2) ∧
      ¬Undisturbed FlakyDevice.installed r r' := by
  have hrun : refusedAnd netMapShortened (fun r r' =>
      decide ((r.health.lookup (key 2)).bind (·.activeRoute) = some (.direct (some (addr 2)))) &&
      decide ((r'.health.lookup (key 2)).bind (·.activeRoute) = some (.direct (some (addr 3)))) &&
      decide (FlakyDevice.installed r'.client (key 2) = FlakyDevice.installed r.client (key 2))) =
        true := by
    decide +kernel
  obtain ⟨os, r, r', happlied, hfailed, hchecks⟩ := exists_of_refusedAnd hrun
  simp only [Bool.and_eq_true, decide_eq_true_eq] at hchecks
  obtain ⟨⟨hbefore, hafter⟩, hsame⟩ := hchecks
  refine ⟨os, r, r', happlied, hfailed, hbefore, hafter, hsame, fun hundisturbed => ?_⟩
  obtain ⟨health, hhealth, -⟩ := Option.bind_eq_some_iff.mp hbefore
  have hstays : ¬Removed FlakyDevice.installed r r' (key 2) := by
    rintro ⟨hconfigured, hgone⟩
    rw [hsame.symm.trans hgone] at hconfigured
    cases hconfigured
  rw [hundisturbed.health (key 2) health hhealth hstays, ← hhealth, hbefore] at hafter
  revert hafter
  decide +kernel

theorem reconcileNetworkMap_undisturbed_iff_moved :
    ∃ os r r', Machine.run (step build) (new listRefused [] ⟨fun _ => 0, 0⟩) [.networkMap netMap 0 []] =
        .ok (os, r) ∧
      reconcileNetworkMap build netMapMoved 0 [] r = .ok (.error (.device .io), r') ∧
      (r.health.lookup (key 2)).isSome ∧ Undisturbed FlakyDevice.installed r r' := by
  have hrun : refusedAnd netMapMoved (fun r _ => (r.health.lookup (key 2)).isSome &&
      decide (KeepsRoutes build netMapMoved r)) = true := by
    decide +kernel
  obtain ⟨os, r, r', happlied, hfailed, hchecks⟩ := exists_of_refusedAnd hrun
  rw [Bool.and_eq_true, decide_eq_true_eq] at hchecks
  exact ⟨os, r, r', happlied, hfailed, hchecks.1,
    (reconcileNetworkMap_undisturbed_iff flakyDevice_ledger hfailed).mpr hchecks.2⟩

end Tendrilix.Sample
