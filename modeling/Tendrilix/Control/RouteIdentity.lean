import Tendrilix.Control.HealthVerdict

/-!
# Routes across a change of the route list

Health follows the identity of a route. The active policy is looked up anew, while the fallback of a
recovery probe stays a position.
-/

namespace Tendrilix.Control

namespace PeerHealth

variable {h : PeerHealth} {new : List RouteKey}

def healthOf (h : PeerHealth) (route : RouteKey) : Option PolicyHealth :=
  (h.policyHealth.find? (·.route = route)).map (·.health)

/-- The route that a failed recovery probe returns to. -/
def fallbackRoute (h : PeerHealth) : Option RouteKey := h.recoveryFallback.bind (h.routes[·]?)

theorem find_map_entryFor (h : PeerHealth) {route : RouteKey} (hmem : route ∈ new) :
    (new.map h.entryFor).find? (·.route = route) = some (h.entryFor route) := by
  induction new with
  | nil => exact nomatch hmem
  | cons r new ih =>
    rw [List.map_cons, List.find?_cons, entryFor_route]
    by_cases heq : r = route
    · simp [heq]
    · simp only [heq, decide_false]
      exact ih ((List.mem_cons.mp hmem).resolve_left fun hr => heq hr.symm)

theorem mem_routes_iff {route : RouteKey} :
    route ∈ h.routes ↔ (h.policyHealth.find? (·.route = route)).isSome := by
  simp [routes]

theorem syncPolicies_healthOf (profile : Profile) (h : PeerHealth) (activePolicy : ℕ)
    (hfits : ∀ capacity ∈ profile.maxRoutes, new.length ≤ capacity) {route : RouteKey}
    (hmem : route ∈ new) :
    (h.syncPolicies profile activePolicy new).healthOf route = some (h.entryFor route).health := by
  have hentries : (h.syncPolicies profile activePolicy new).policyHealth = new.map h.entryFor := by
    rw [syncPolicies]
    dsimp only
    cases hmax : profile.maxRoutes with
    | none => rfl
    | some capacity =>
      rw [Option.elim_some, List.take_of_length_le]
      simpa using hfits capacity hmax
  rw [healthOf, hentries, find_map_entryFor h hmem]
  rfl

/-- A route list that the state takes over without losing track of any route. -/
structure Preserved (h : PeerHealth) (new : List RouteKey) (h' : PeerHealth) : Prop where
  kept : ∀ route ∈ h.routes, route ∈ new → h'.healthOf route = h.healthOf route
  fresh : ∀ route ∈ new, route ∉ h.routes → h'.healthOf route = some {}
  active : h'.activeRoute = h.activeRoute
  fallback : ∀ route, h.fallbackRoute = some route → route ∈ new → h'.fallbackRoute = some route
  cleared : (∀ route, h.fallbackRoute = some route → route ∉ new) → h'.recoveryFallback = none

/-- The fallback has the same route at its position in both lists, or its route is gone and the new
list does not reach its position. -/
def FallbackStays (h : PeerHealth) (new : List RouteKey) : Prop :=
  ∀ f, h.recoveryFallback = some f →
    (f < new.length ∧ new[f]? = h.routes[f]?) ∨
    (new.length ≤ f ∧ ∀ route, h.routes[f]? = some route → route ∉ new)

theorem syncPolicies_recoveryFallback (profile : Profile) (h : PeerHealth) (activePolicy : ℕ)
    (new : List RouteKey) {f : ℕ} (hf : h.recoveryFallback = some f) :
    (h.syncPolicies profile activePolicy new).recoveryFallback =
      if f < new.length then some f else none := by
  change h.recoveryFallback.filter (· < new.length) = _
  rw [hf, Option.filter_some]
  simp

theorem syncPolicies_activeRoute (profile : Profile) (h : PeerHealth) {position : ℕ}
    (hfits : ∀ capacity ∈ profile.maxRoutes, new.length ≤ capacity) {route : RouteKey}
    (hposition : new[position]? = some route) :
    (h.syncPolicies profile position new).activeRoute = some route := by
  obtain ⟨hlt, -⟩ := List.getElem?_eq_some_iff.mp hposition
  rw [activeRoute_eq, syncPolicies_routes h position hfits]
  change new[min position (new.length - 1)]? = _
  rwa [min_eq_left (by omega)]

/-- A route list in which the active route has been found is taken over without losing track of any
route, exactly when the fallback of an outstanding probe stays where it is. -/
theorem syncPolicies_preserved_iff (profile : Profile) (h : PeerHealth)
    (new : RouteKeyVec profile) (position : ℕ) (route : RouteKey)
    (hactive : h.activeRoute = some route) (hposition : new.1[position]? = some route) :
    h.Preserved new (h.syncPolicies profile position new) ↔ h.FallbackStays new := by
  obtain ⟨new, hfits⟩ := new
  dsimp only at hposition ⊢
  have hroutes := syncPolicies_routes h position hfits
  constructor
  · intro hpreserved f hf
    have hfallback := syncPolicies_recoveryFallback profile h position new hf
    have hdenotes : h.fallbackRoute = h.routes[f]? := by rw [fallbackRoute, hf, Option.bind_some]
    rcases Nat.lt_or_ge f new.length with hlt | hge
    · left
      refine ⟨hlt, ?_⟩
      rw [if_pos hlt] at hfallback
      cases hold : h.routes[f]? with
      | none =>
        have hnone := hpreserved.cleared fun r hr => nomatch (hdenotes.trans hold).symm.trans hr
        cases hfallback.symm.trans hnone
      | some r =>
        by_cases hmem : r ∈ new
        · have hsame := hpreserved.fallback r (hdenotes.trans hold) hmem
          rw [fallbackRoute, hfallback, Option.bind_some, hroutes] at hsame
          exact hsame
        · have hnone := hpreserved.cleared fun r' hr' => by
            cases (hdenotes.trans hold).symm.trans hr'
            exact hmem
          cases hfallback.symm.trans hnone
    · right
      refine ⟨hge, fun r hr hmem => ?_⟩
      have hsame := hpreserved.fallback r (hdenotes.trans hr) hmem
      rw [if_neg (by omega)] at hfallback
      rw [fallbackRoute, hfallback] at hsame
      cases hsame
  · intro hstays
    refine ⟨fun r hold hmem => ?_, fun r hmem hnew => ?_, ?_, fun r hr hmem => ?_, fun hgone => ?_⟩
    · rw [syncPolicies_healthOf profile h position hfits hmem, healthOf, entryFor]
      obtain ⟨entry, hentry⟩ := Option.isSome_iff_exists.mp (mem_routes_iff.mp hold)
      rw [hentry]
      rfl
    · rw [syncPolicies_healthOf profile h position hfits hmem, entryFor]
      rw [mem_routes_iff, Option.not_isSome_iff_eq_none] at hnew
      rw [hnew]
      rfl
    · rw [syncPolicies_activeRoute profile h hfits hposition, hactive]
    · obtain ⟨f, hf, hdenotes⟩ := Option.bind_eq_some_iff.mp hr
      rcases hstays f hf with ⟨hlt, hsame⟩ | ⟨-, hgone⟩
      · rw [fallbackRoute, syncPolicies_recoveryFallback profile h position new hf, if_pos hlt,
          Option.bind_some, hroutes, hsame]
        exact hdenotes
      · exact absurd hmem (hgone r hdenotes)
    · cases hf : h.recoveryFallback with
      | none =>
        change h.recoveryFallback.filter _ = none
        rw [hf]
        rfl
      | some f =>
        rw [syncPolicies_recoveryFallback profile h position new hf]
        rcases hstays f hf with ⟨hlt, hsame⟩ | ⟨hge, -⟩
        · obtain ⟨r, hr⟩ : ∃ r, new[f]? = some r := ⟨_, List.getElem?_eq_getElem hlt⟩
          have hdenotes : h.fallbackRoute = some r := by
            rw [fallbackRoute, hf, Option.bind_some, ← hsame, hr]
          exact absurd (List.mem_of_getElem? hr) (hgone r hdenotes)
        · rw [if_neg (by omega)]

end PeerHealth

end Tendrilix.Control

namespace Tendrilix.Sample

open Control

def probing : PeerHealth :=
  ((PeerHealth.newWithJitter 1 0 0).syncPolicies .alloc 1
    [.direct none, .relay (key 3)]).switchTo 0 (secs 135) true

/-- The next map lists the relay first. The fallback is now the probed route itself. -/
theorem fallback_follows_position :
    let h := probing.syncPolicies .alloc 1 [.relay (key 3), .direct none]
    probing.routes.Nodup ∧ probing.activeRoute = some (.direct none) ∧
      probing.fallbackRoute = some (.relay (key 3)) ∧ h.activeRoute = some (.direct none) ∧
      h.fallbackRoute = some (.direct none) ∧
      ¬probing.Preserved [.relay (key 3), .direct none] h := by
  refine ⟨by decide +kernel, by decide +kernel, by decide +kernel, by decide +kernel,
    by decide +kernel, fun hpreserved => ?_⟩
  have hfallback := hpreserved.fallback (.relay (key 3)) (by decide +kernel) (by decide)
  revert hfallback
  decide +kernel

theorem syncPolicies_preserved_iff_appended :
    probing.Preserved [.direct none, .relay (key 3), .relay (key 4)]
      (probing.syncPolicies .alloc 0 [.direct none, .relay (key 3), .relay (key 4)]) := by
  refine (PeerHealth.syncPolicies_preserved_iff .alloc probing
    (routeKeyVec [.direct none, .relay (key 3), .relay (key 4)]) 0 (.direct none)
    (by decide +kernel) rfl).mpr ?_
  intro f hf
  cases hf
  exact .inl ⟨by decide, by decide +kernel⟩

end Tendrilix.Sample
