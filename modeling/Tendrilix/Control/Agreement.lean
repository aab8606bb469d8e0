import Tendrilix.Control.Reconciler

/-!
# Desired peers, health and device agree

Four tables are kept apart: the desired peers, the health of their routes, the fingerprints of the
configurations written and the device itself. What is true in every state is that a fingerprint
belongs to the configuration the device has. That is enough for a map that was applied to leave all
tables in agreement, and for the sampling of health to keep them so.
-/

namespace Tendrilix.Control

open Attempt
open NetMap (NetworkMap)

/-- `installed` reads the configuration last written for a key. An operation that fails writes
nothing. -/
structure Ledger {C : Type} [DeviceClient C] (installed : C → PublicKey → Option PeerConfig) :
    Prop where
  add_ok : ∀ config c c', DeviceClient.addPeer config c = .ok (.ok (), c') →
    installed c' = Function.update (installed c) config.publicKey (some config)
  add_error : ∀ config c e c', DeviceClient.addPeer config c = .ok (.error e, c') →
    installed c' = installed c
  update_ok : ∀ config c c', DeviceClient.updatePeer config c = .ok (.ok (), c') →
    installed c' = Function.update (installed c) config.publicKey (some config)
  update_error : ∀ config c e c', DeviceClient.updatePeer config c = .ok (.error e, c') →
    installed c' = installed c
  remove_ok : ∀ key c c', DeviceClient.removePeer key c = .ok (.ok (), c') →
    installed c' = Function.update (installed c) key none
  remove_error : ∀ key c e c', DeviceClient.removePeer key c = .ok (.error e, c') →
    installed c' = installed c
  get : ∀ key c r c', DeviceClient.getPeer key c = .ok (r, c') → installed c' = installed c
  list : ∀ c r c', DeviceClient.listPeers c = .ok (r, c') → installed c' = installed c
  list_ok : ∀ c keys c', DeviceClient.listPeers c = .ok (.ok keys, c') →
    ∀ key, key ∈ keys ↔ (installed c key).isSome

/-! ### Desired peers -/

namespace DesiredPeer

structure Rendered (Known : PeerConfig → Prop) (key : PublicKey) (p : DesiredPeer) : Prop where
  publicKey : p.publicKey = key
  active : p.activePolicy < p.policies.length
  activeRoute : p.activeRoute = p.policies[p.activePolicy]?.map RoutePolicy.routeKey
  known : ∀ i, Known (p.configForPolicy i p.keepalive)

variable {Known : PeerConfig → Prop} {key : PublicKey} {p : DesiredPeer}

theorem Rendered.mono {Known' : PeerConfig → Prop} (h : p.Rendered Known key)
    (hknown : ∀ config, Known config → Known' config) : p.Rendered Known' key where
  publicKey := h.publicKey
  active := h.active
  activeRoute := h.activeRoute
  known i := hknown _ (h.known i)

theorem Rendered.activePolicyIndex_eq (h : p.Rendered Known key) :
    p.activePolicyIndex = p.activePolicy :=
  min_eq_left (Nat.le_sub_one_of_lt h.active)

theorem Rendered.activePolicyIndex_lt (h : p.Rendered Known key) :
    p.activePolicyIndex < (p.policies.map RoutePolicy.routeKey).length := by
  rw [List.length_map, h.activePolicyIndex_eq]
  exact h.active

theorem Rendered.setActivePolicy (h : p.Rendered Known key) (policyIndex : ℕ) :
    (p.setActivePolicy policyIndex).Rendered Known key where
  publicKey := h.publicKey
  active := by
    have hpos : 0 < p.policies.length := h.active.pos
    exact (min_le_right _ _).trans_lt (Nat.sub_one_lt hpos.ne')
  activeRoute := rfl
  known := h.known

theorem Rendered.setActivePolicy_self (h : p.Rendered Known key) :
    p.setActivePolicy p.activePolicyIndex = p := by
  have hmin : min p.activePolicyIndex (p.policies.length - 1) = p.activePolicy := by
    rw [h.activePolicyIndex_eq]
    exact h.activePolicyIndex_eq
  rw [DesiredPeer.setActivePolicy, hmin, ← h.activeRoute]

end DesiredPeer

/-- The configurations that a map can put on the device, over all choices of policies. -/
def Renders (b : Build) (map : NetworkMap) (config : PeerConfig) : Prop :=
  ∃ peer ∈ map.peers, ∃ allowedIps policies i,
    collect b.profile.maxAllowedIpsPerPeer peer.tunnelIp.toList "allowed IPs" = .ok allowedIps ∧
    routePoliciesForPeer b map peer = .ok policies ∧
    config = (desiredPeer peer allowedIps policies 0).configForPolicy i
      (desiredPeer peer allowedIps policies 0).keepalive

theorem initialPolicyIndex_lt {policies : List RoutePolicy} (h : policies ≠ []) (rng : Rng) :
    (initialPolicyIndex policies rng).1 < policies.length := by
  have hpos : 0 < policies.length := List.length_pos_iff.mpr h
  rw [initialPolicyIndex]
  split
  · exact hpos
  · rename_i best hbest
    dsimp only
    generalize hcandidates : (List.range policies.length).filter (fun index =>
      policies[index]?.any (·.priority = best)) = candidates
    cases hget : candidates[(randomBelow rng candidates.length).1]? with
    | none => exact hpos
    | some index =>
      have hmem : index ∈ candidates := List.mem_of_getElem? hget
      rw [← hcandidates, List.mem_filter, List.mem_range] at hmem
      exact hmem.1

def AllRendered (Known : PeerConfig → Prop) (desired : Bounded.Map PublicKey DesiredPeer) : Prop :=
  ∀ key peer, desired.lookup key = some peer → peer.Rendered Known key

theorem desiredPeersLoop_all {b : Build} {map : NetworkMap} {P : PublicKey → DesiredPeer → Prop}
    (hP : ∀ peer ∈ map.peers, ∀ allowedIps policies i,
      collect b.profile.maxAllowedIpsPerPeer peer.tunnelIp.toList "allowed IPs" = .ok allowedIps →
      routePoliciesForPeer b map peer = .ok policies → i < policies.length →
      P peer.publicKey (desiredPeer peer allowedIps policies i))
    {peers : List NetMap.Peer} (hpeers : peers ⊆ map.peers)
    {desired desired' : Bounded.Map PublicKey DesiredPeer} {rng rng' : Rng}
    (hdesired : ∀ key peer, desired.lookup key = some peer → P key peer)
    (h : desiredPeersLoop b map peers desired rng = (.ok desired', rng')) :
    ∀ key peer, desired'.lookup key = some peer → P key peer := by
  induction peers generalizing desired rng with
  | nil =>
    cases h
    exact hdesired
  | cons peer rest ih =>
    have hrest : rest ⊆ map.peers := fun p hp => hpeers (List.mem_cons_of_mem _ hp)
    rw [desiredPeersLoop] at h
    split at h
    · cases h
    · cases h
    · rename_i allowedIps policies hips hpolicies
      split at h
      · exact ih hrest hdesired h
      · rename_i hnonempty
        dsimp only at h
        split at h
        · cases h
        · rename_i inserted hinsert
          apply ih hrest ?_ h
          rw [Bounded.tryInsertEntry_eq_some hinsert]
          intro key p hp
          rcases Bounded.lookup_insert_eq_some_iff.mp hp with ⟨rfl, rfl⟩ | ⟨-, hp⟩
          · exact hP peer (hpeers (by simp)) allowedIps policies _ hips hpolicies
              (initialPolicyIndex_lt (by simpa using hnonempty) rng)
          · exact hdesired key p hp

theorem desiredPeersLoop_rendered {b : Build} {map : NetworkMap} {Known : PeerConfig → Prop}
    (hknown : ∀ config, Renders b map config → Known config) {peers : List NetMap.Peer}
    (hpeers : peers ⊆ map.peers) {desired desired' : Bounded.Map PublicKey DesiredPeer}
    {rng rng' : Rng} (hdesired : AllRendered Known desired)
    (h : desiredPeersLoop b map peers desired rng = (.ok desired', rng')) :
    AllRendered Known desired' := by
  refine desiredPeersLoop_all (fun peer hpeer allowedIps policies i hips hpolicies hi => ?_) hpeers
    hdesired h
  exact ⟨rfl, hi, rfl, fun j => hknown _ ⟨peer, hpeer, allowedIps, policies, j, hips, hpolicies, rfl⟩⟩

theorem collect_eq_ok {α : Type} {capacity : Option ℕ} {items collected : List α} {context : String}
    (h : collect capacity items context = .ok collected) :
    collected = items ∧ ∀ c ∈ capacity, items.length ≤ c := by
  rw [collect, Bounded.collect] at h
  split at h
  · cases h
  · rename_i hfits
    cases h
    refine ⟨rfl, fun c hc => ?_⟩
    rw [hc] at hfits
    simpa using hfits

theorem routeKeysForPolicies_eq_ok {b : Build} {policies : List RoutePolicy} {routes : List RouteKey}
    (h : routeKeysForPolicies b policies = .ok routes) :
    routes = policies.map RoutePolicy.routeKey ∧ ∀ c ∈ b.profile.maxRoutes, routes.length ≤ c := by
  obtain ⟨rfl, hfits⟩ := collect_eq_ok h
  exact ⟨rfl, hfits⟩

namespace PeerReconciler

variable {C : Type} {b : Build} {Known : PeerConfig → Prop}

theorem carryForwardPeer_spec {key : PublicKey} {peer : DesiredPeer} (r : PeerReconciler C)
    (hpeer : peer.Rendered Known key) :
    (carryForwardPeer b key peer r).1.Rendered Known key ∧
      ∃ health, (carryForwardPeer b key peer r).2 = { r with health := health } := by
  rw [carryForwardPeer]
  split
  · exact ⟨hpeer, r.health, rfl⟩
  · exact ⟨hpeer.setActivePolicy _, _, rfl⟩

theorem carryForwardLoop_spec (keys : List PublicKey) {desired : Bounded.Map PublicKey DesiredPeer}
    (hdesired : AllRendered Known desired) (r : PeerReconciler C) :
    AllRendered Known (carryForwardLoop b keys desired r).1 ∧
      (∀ key, key ∈ (carryForwardLoop b keys desired r).1 ↔ key ∈ desired) ∧
      ∃ health, (carryForwardLoop b keys desired r).2 = { r with health := health } := by
  induction keys generalizing desired r with
  | nil => exact ⟨hdesired, fun _ => Iff.rfl, r.health, rfl⟩
  | cons key keys ih =>
    rw [carryForwardLoop]
    split
    · exact ih hdesired r
    · rename_i peer hlookup
      obtain ⟨hpeer, health, hr⟩ := carryForwardPeer_spec (b := b) r (hdesired key peer hlookup)
      have hmem : key ∈ desired := Bounded.mem_of_lookup hlookup
      dsimp only
      rw [hr]
      have hreplaced : AllRendered Known (desired.replace key (carryForwardPeer b key peer r).1) := by
        intro k p hp
        rcases (Bounded.lookup_replace_eq_some_iff hmem).mp hp with ⟨rfl, rfl⟩ | ⟨-, hp⟩
        · exact hpeer
        · exact hdesired k p hp
      obtain ⟨hrendered, hkeys, health', hr'⟩ := ih hreplaced { r with health := health }
      refine ⟨hrendered, fun k => ?_, health', hr'⟩
      rw [hkeys, AList.mem_replace]

/-! ### What holds in every state -/

variable {installed : C → PublicKey → Option PeerConfig}

structure Sound (b : Build) (Known : PeerConfig → Prop)
    (installed : C → PublicKey → Option PeerConfig) (r : PeerReconciler C) : Prop where
  fingerprints : ∀ key f, r.appliedConfigFingerprints.lookup key = some f →
    ∃ config, Known config ∧ installed r.client key = some config ∧ b.fingerprint config = f
  desired : AllRendered Known r.desired

/-- The views of desired peers, health and device agree. -/
structure Agrees (installed : C → PublicKey → Option PeerConfig) (r : PeerReconciler C) : Prop where
  keys : ∀ key, (installed r.client key).isSome ↔ key ∈ r.desired
  config : ∀ key peer, r.desired.lookup key = some peer →
    installed r.client key = some peer.config
  health : ∀ key peer, r.desired.lookup key = some peer →
    ∃ health, r.health.lookup key = some health ∧
      health.activePolicy = peer.activePolicyIndex ∧ health.activeRoute = peer.activeRoute

theorem Sound.of_eq {r r' : PeerReconciler C} (h : Sound b Known installed r)
    (hclient : installed r'.client = installed r.client)
    (hfingerprints : r'.appliedConfigFingerprints = r.appliedConfigFingerprints)
    (hdesired : r'.desired = r.desired) : Sound b Known installed r' where
  fingerprints := by
    rw [hclient, hfingerprints]
    exact h.fingerprints
  desired := by
    rw [hdesired]
    exact h.desired

theorem callClient_triple {α : Type} {op : C → Call (Except Device.Error α × C)}
    {P : PeerReconciler C → Prop} {Q : α → PeerReconciler C → Prop} {E : PeerReconciler C → Prop}
    (hok : ∀ r a c, P r → op r.client = .ok (.ok a, c) → Q a { r with client := c })
    (herror : ∀ r e c, P r → op r.client = .ok (.error e, c) → E { r with client := c }) :
    Triple P (callClient op) Q E := by
  intro r hr outcome r' hrun
  rw [callClient] at hrun
  split at hrun
  · cases hrun
  · rename_i e c hop
    cases hrun
    exact herror r e c hr hop
  · rename_i a c hop
    cases hrun
    exact hok r a c hr hop

theorem insertFingerprint_triple {key : PublicKey} {f : ℕ} {P : PeerReconciler C → Prop}
    {Q : Unit → PeerReconciler C → Prop} {E : PeerReconciler C → Prop}
    (hok : ∀ r, P r → Q () { r with
      appliedConfigFingerprints := r.appliedConfigFingerprints.insert key f })
    (herror : ∀ r, P r → r.appliedConfigFingerprints.lookup key = none → E r) :
    Triple P (insertFingerprint b key f) Q E := by
  apply Triple.bind Triple.get
  intro r
  split
  · rename_i hnone
    apply Triple.fail
    rintro s ⟨rfl, hs⟩
    exact herror r hs (Bounded.mem_of_tryInsertEntry_eq_none hnone)
  · rename_i fingerprints hsome
    apply Triple.modify
    rintro s ⟨rfl, hs⟩
    rw [Bounded.tryInsertEntry_eq_some hsome]
    exact hok r hs

theorem insertHealth_triple {key : PublicKey} {health : PeerHealth} {P : PeerReconciler C → Prop}
    {Q : Unit → PeerReconciler C → Prop} {E : PeerReconciler C → Prop}
    (hok : ∀ r, P r → Q () { r with health := r.health.insert key health })
    (herror : ∀ r, P r → r.health.lookup key = none → E r) :
    Triple P (insertHealth b key health) Q E := by
  apply Triple.bind Triple.get
  intro r
  split
  · rename_i hnone
    apply Triple.fail
    rintro s ⟨rfl, hs⟩
    exact herror r hs (Bounded.mem_of_tryInsertEntry_eq_none hnone)
  · rename_i table hsome
    apply Triple.modify
    rintro s ⟨rfl, hs⟩
    rw [Bounded.tryInsertEntry_eq_some hsome]
    exact hok r hs

theorem trackActivePolicy_triple {key : PublicKey} {activePolicy : ℕ} {routes : List RouteKey}
    {now : ℕ} {P : PeerReconciler C → Prop} {Q : Unit → PeerReconciler C → Prop}
    {E : PeerReconciler C → Prop}
    (hknown : ∀ r health, P r → r.health.lookup key = some health → Q () { r with
      health := r.health.replace key (health.syncPolicies b.profile activePolicy routes) })
    (hnew : ∀ r rng health, P r → r.health.lookup key = none → Q () { r with
      rng := rng
      health := r.health.insert key (PeerHealth.syncPolicies b.profile health activePolicy routes) })
    (herror : ∀ r rng, P r → r.health.lookup key = none → E { r with rng := rng }) :
    Triple P (trackActivePolicy b key activePolicy routes now) Q E := by
  apply Triple.bind Triple.get
  intro r
  split
  · rename_i health hlookup
    apply Triple.modify
    rintro s ⟨rfl, hs⟩
    exact hknown r health hs hlookup
  · rename_i hnone
    refine Triple.bind (Q := fun _ s => s = { r with rng := r.rng.nextU64.2 } ∧ P r)
      (Triple.modify fun s hs => ?_) fun _ => insertHealth_triple (fun s hs => ?_) fun s hs _ => ?_
    · obtain ⟨rfl, hs⟩ := hs
      exact ⟨rfl, hs⟩
    · obtain ⟨rfl, hr⟩ := hs
      exact hnew r _ _ hr hnone
    · obtain ⟨rfl, hr⟩ := hs
      exact herror r _ hr hnone

structure Wrote (b : Build) (Known : PeerConfig → Prop)
    (installed : C → PublicKey → Option PeerConfig) (r₀ : PeerReconciler C) (config : PeerConfig)
    (r : PeerReconciler C) : Prop where
  sound : Sound b Known installed r
  client : installed r.client = Function.update (installed r₀.client) config.publicKey (some config)
  fingerprints : ∀ key, key ∈ r.appliedConfigFingerprints ↔
    key = config.publicKey ∨ key ∈ r₀.appliedConfigFingerprints
  health : r.health = r₀.health
  desired : r.desired = r₀.desired

theorem write_triple (config : PeerConfig) {op : C → Call (Except Device.Error Unit × C)}
    (hok : ∀ c c', op c = .ok (.ok (), c') →
      installed c' = Function.update (installed c) config.publicKey (some config))
    (herror : ∀ c e c', op c = .ok (.error e, c') → installed c' = installed c)
    (hknown : Known config) {r₀ : PeerReconciler C} (hr₀ : Sound b Known installed r₀) :
    Triple (· = r₀)
      (do callClient op; insertFingerprint b config.publicKey (b.fingerprint config))
      (fun _ => Wrote b Known installed r₀ config)
      (fun r => Sound b Known installed r ∧ (config.publicKey ∈ r₀.appliedConfigFingerprints →
        installed r.client = installed r₀.client ∧ r = { r₀ with client := r.client })) := by
  refine Triple.bind (Q := fun _ r => r = { r₀ with client := r.client } ∧
    installed r.client = Function.update (installed r₀.client) config.publicKey (some config))
    (callClient_triple (fun r _ c hr hop => ?_) fun r e c hr hop => ?_) fun _ => ?_
  · subst hr
    exact ⟨rfl, hok _ _ hop⟩
  · subst hr
    have hsame := herror _ _ _ hop
    exact ⟨hr₀.of_eq hsame rfl rfl, fun _ => ⟨hsame, rfl⟩⟩
  · refine insertFingerprint_triple (fun r hr => ?_) fun r hr hnone => ?_
    · obtain ⟨hshape, hclient⟩ := hr
      have hfingerprints : r.appliedConfigFingerprints = r₀.appliedConfigFingerprints := by rw [hshape]
      have hdesired : r.desired = r₀.desired := by rw [hshape]
      refine ⟨⟨fun key f hf => ?_, ?_⟩, hclient, fun key => ?_, ?_, hdesired⟩
      · dsimp only at hf ⊢
        rw [hclient]
        rw [hfingerprints] at hf
        rcases Bounded.lookup_insert_eq_some_iff.mp hf with ⟨rfl, rfl⟩ | ⟨hne, hf⟩
        · exact ⟨config, hknown, by simp, rfl⟩
        · rw [Function.update_of_ne hne]
          exact hr₀.fingerprints key f hf
      · dsimp only
        rw [hdesired]
        exact hr₀.desired
      · dsimp only
        rw [hfingerprints, AList.mem_insert]
      · rw [hshape]
    · obtain ⟨hshape, hclient⟩ := hr
      rw [hshape] at hnone
      dsimp only at hnone
      refine ⟨⟨fun key f hf => ?_, ?_⟩, fun hmem => ?_⟩
      · rw [hshape] at hf
        have hne : key ≠ config.publicKey := by
          rintro rfl
          rw [hnone] at hf
          cases hf
        rw [hclient, Function.update_of_ne hne]
        exact hr₀.fingerprints key f hf
      · rw [hshape]
        exact hr₀.desired
      · rw [AList.lookup_eq_none] at hnone
        exact absurd hmem hnone

def Tracks (health : PeerHealth) (activePolicy : ℕ) (routes : List RouteKey) : Prop :=
  health.activePolicy = activePolicy ∧ health.routes = routes

theorem syncPolicies_tracks {routes : List RouteKey} {activePolicy : ℕ}
    (hfits : ∀ c ∈ b.profile.maxRoutes, routes.length ≤ c) (hactive : activePolicy < routes.length)
    (health : PeerHealth) : Tracks (health.syncPolicies b.profile activePolicy routes) activePolicy
      routes :=
  ⟨min_eq_left (Nat.le_sub_one_of_lt hactive), health.syncPolicies_routes activePolicy hfits⟩

def policyAfter (activePolicy : ℕ) : HealthDecision → ℕ
  | .switch nextPolicy _ => nextPolicy
  | _ => activePolicy

theorem observe_tracks {routes : List RouteKey} {activePolicy : ℕ} {health : PeerHealth}
    (hfits : ∀ c ∈ b.profile.maxRoutes, routes.length ≤ c) (hactive : activePolicy < routes.length)
    (htracks : Tracks health activePolicy routes) (stats : Device.Stats) (now : ℕ) :
    Tracks (health.observe b.profile stats routes now).2
        (policyAfter activePolicy (health.observe b.profile stats routes now).1) routes ∧
      policyAfter activePolicy (health.observe b.profile stats routes now).1 < routes.length := by
  obtain ⟨rfl, -⟩ := htracks
  have hsync := syncPolicies_tracks hfits hactive health
  have hfollows := PeerHealth.observe_follows b.profile hactive stats now
  generalize health.observe b.profile stats routes now = d at hfollows ⊢
  obtain ⟨decision, health'⟩ := d
  obtain ⟨hroutes, hpolicy⟩ := hfollows
  cases decision with
  | switch nextPolicy reason => exact ⟨⟨hpolicy.1, hroutes.trans hsync.2⟩, hpolicy.2⟩
  | stay => exact ⟨⟨hpolicy.trans hsync.1, hroutes.trans hsync.2⟩, hactive⟩
  | peerInactive => exact ⟨⟨hpolicy.trans hsync.1, hroutes.trans hsync.2⟩, hactive⟩
  | noViablePolicy => exact ⟨⟨hpolicy.trans hsync.1, hroutes.trans hsync.2⟩, hactive⟩

structure Tracked (r₀ : PeerReconciler C) (key : PublicKey) (activePolicy : ℕ)
    (routes : List RouteKey) (r : PeerReconciler C) : Prop where
  client : r.client = r₀.client
  fingerprints : r.appliedConfigFingerprints = r₀.appliedConfigFingerprints
  desired : r.desired = r₀.desired
  others : ∀ other, other ≠ key → r.health.lookup other = r₀.health.lookup other
  tracks : ∃ health, r.health.lookup key = some health ∧ Tracks health activePolicy routes

theorem Tracked.replace {routes : List RouteKey} {activePolicy : ℕ} {r₀ : PeerReconciler C}
    {key : PublicKey} {health health' : PeerHealth} (hlookup : r₀.health.lookup key = some health)
    (htracks : Tracks health' activePolicy routes) :
    Tracked r₀ key activePolicy routes { r₀ with health := r₀.health.replace key health' } where
  client := rfl
  fingerprints := rfl
  desired := rfl
  others _ hne := Bounded.lookup_replace_ne _ hne
  tracks := ⟨health', Bounded.lookup_replace_self _ (Bounded.mem_of_lookup hlookup), htracks⟩

theorem Tracked.insert {routes : List RouteKey} {activePolicy : ℕ} {r₀ : PeerReconciler C}
    {key : PublicKey} {health : PeerHealth} (htracks : Tracks health activePolicy routes) (rng : Rng) :
    Tracked r₀ key activePolicy routes
      { r₀ with
        rng := rng
        health := r₀.health.insert key health } where
  client := rfl
  fingerprints := rfl
  desired := rfl
  others _ hne := AList.lookup_insert_ne hne
  tracks := ⟨health, AList.lookup_insert _, htracks⟩

theorem trackActivePolicy_tracked [DeviceClient C] {routes : List RouteKey} {activePolicy : ℕ}
    (hfits : ∀ c ∈ b.profile.maxRoutes, routes.length ≤ c) (hactive : activePolicy < routes.length)
    (r₀ : PeerReconciler C) (key : PublicKey) (now : ℕ) :
    Triple (· = r₀) (trackActivePolicy b key activePolicy routes now)
      (fun _ => Tracked r₀ key activePolicy routes)
      (fun r => r = { r₀ with rng := r.rng } ∧ r₀.health.lookup key = none) := by
  refine trackActivePolicy_triple (fun r health hr hlookup => ?_) (fun r rng health hr _ => ?_)
    fun r rng hr hnone => ?_
  · subst hr
    exact Tracked.replace hlookup (syncPolicies_tracks hfits hactive health)
  · subst hr
    exact Tracked.insert (syncPolicies_tracks hfits hactive health) rng
  · subst hr
    exact ⟨rfl, hnone⟩

/-! ### Applying a map -/

section Apply

variable [DeviceClient C]

theorem applyConfig_triple (hledger : Ledger installed)
    (hinj : ∀ c c', Known c → Known c' → b.fingerprint c = b.fingerprint c' → c = c')
    (actual : List PublicKey) (config : PeerConfig) (hknown : Known config) {r₀ : PeerReconciler C}
    (hr₀ : Sound b Known installed r₀) :
    Triple (· = r₀) (applyConfig b actual config.publicKey config)
      (fun _ => Wrote b Known installed r₀ config) (Sound b Known installed) := by
  rw [applyConfig]
  split
  · apply Triple.bind Triple.get
    intro r
    split
    · exact (write_triple config (hledger.update_ok config) (hledger.update_error config) hknown
        hr₀).mono (fun s hs => hs.2) (fun _ _ hs => hs) (fun _ hs => hs.1)
    · -- The fingerprint is the recorded one, so the device has this very configuration.
      rename_i hsame
      apply Triple.pure
      intro s hs
      obtain ⟨rfl, rfl⟩ := hs
      rw [not_not] at hsame
      obtain ⟨config', hknown', hconfig', hfingerprint⟩ := hr₀.fingerprints _ _ hsame
      obtain rfl := hinj _ _ hknown' hknown hfingerprint
      have hmem := Bounded.mem_of_lookup hsame
      exact
        { sound := hr₀
          client := by rw [← hconfig', Function.update_eq_self]
          fingerprints := fun key => by
            constructor
            · exact .inr
            · rintro (rfl | h)
              · exact hmem
              · exact h
          health := rfl
          desired := rfl }
  · exact (write_triple config (hledger.add_ok config) (hledger.add_error config) hknown hr₀).mono
      (fun s hs => hs) (fun _ _ hs => hs) (fun _ hs => hs.1)

theorem removeVanishedPeer_triple (hledger : Ledger installed)
    (desired : Bounded.Map PublicKey DesiredPeer) (key : PublicKey) {r₀ : PeerReconciler C}
    (hr₀ : Sound b Known installed r₀) :
    Triple (· = r₀) (removeVanishedPeer desired key)
      (fun _ r => Sound b Known installed r ∧ installed r.client =
        if key ∈ desired then installed r₀.client
        else Function.update (installed r₀.client) key none)
      (Sound b Known installed) := by
  rw [removeVanishedPeer]
  split
  · rename_i hwanted
    apply Triple.pure
    intro r hr
    subst hr
    exact ⟨hr₀, rfl⟩
  · rename_i hunwanted
    refine Triple.bind (Q := fun _ r => r = { r₀ with client := r.client } ∧
      installed r.client = Function.update (installed r₀.client) key none) ?_ fun _ => ?_
    · apply callClient_triple
      · intro r _ c hr hop
        subst hr
        exact ⟨rfl, hledger.remove_ok _ _ _ hop⟩
      · intro r e c hr hop
        subst hr
        exact hr₀.of_eq (hledger.remove_error _ _ _ _ hop) rfl rfl
    · apply Triple.modify
      intro r hr
      obtain ⟨hshape, hclient⟩ := hr
      refine ⟨⟨fun other f hf => ?_, ?_⟩, hclient⟩
      · rw [hshape] at hf
        obtain ⟨hne, hf⟩ := Bounded.lookup_erase_eq_some_iff.mp hf
        dsimp only
        rw [hclient, Function.update_of_ne hne]
        exact hr₀.fingerprints other f hf
      · dsimp only
        rw [hshape]
        exact hr₀.desired

theorem removeVanishedPeers_triple (hledger : Ledger installed) (actual : List PublicKey)
    (desired : Bounded.Map PublicKey DesiredPeer) :
    Triple (fun r => Sound b Known installed r ∧
        ∀ key, key ∈ actual ↔ (installed r.client key).isSome)
      (removeVanishedPeers actual desired)
      (fun _ r => Sound b Known installed r ∧
        ∀ key, (installed r.client key).isSome ↔ key ∈ actual ∧ key ∈ desired)
      (Sound b Known installed) := by
  have hloop := Triple.forEach (E := Sound b Known installed)
    (I := fun done _ r => Sound b Known installed r ∧
      ∀ key, (installed r.client key).isSome ↔ key ∈ actual ∧ (key ∈ desired ∨ key ∉ done))
    (f := removeVanishedPeer desired) actual ?_
  · refine hloop.mono (fun r hr => ⟨hr.1, fun key => by simp [hr.2 key]⟩)
      (fun _ r hr => ⟨hr.1, fun key => ?_⟩) (fun _ hr => hr)
    rw [hr.2 key]
    constructor
    · exact fun ⟨hactual, hkept⟩ => ⟨hactual, hkept.resolve_right (not_not.mpr hactual)⟩
    · exact fun ⟨hactual, hkept⟩ => ⟨hactual, .inl hkept⟩
  · intro done key left hactual
    apply Triple.fromState
    intro r hr
    refine (removeVanishedPeer_triple hledger desired key hr.1).mono (fun _ h => h)
      (fun _ r' hpost => ?_) fun _ h => h
    refine ⟨hpost.1, fun other => ?_⟩
    rw [hpost.2, List.mem_append, List.mem_singleton]
    by_cases hother : other = key
    · subst hother
      by_cases hwanted : other ∈ desired
      · simp [hwanted, hr.2 other]
      · simp [hwanted]
    · by_cases hwanted : key ∈ desired
      · simp [hwanted, hother, hr.2 other]
      · simp [hwanted, hother, hr.2 other]

end Apply

structure Settled (installed : C → PublicKey → Option PeerConfig) (r : PeerReconciler C)
    (key : PublicKey) (peer : DesiredPeer) : Prop where
  config : installed r.client key = some peer.config
  fingerprint : key ∈ r.appliedConfigFingerprints
  health : ∃ health, r.health.lookup key = some health ∧
    Tracks health peer.activePolicyIndex (peer.policies.map RoutePolicy.routeKey)

theorem Settled.of_others {r r' : PeerReconciler C} {key other : PublicKey} {peer : DesiredPeer}
    {config : PeerConfig} (h : Settled installed r key peer) (hne : key ≠ other)
    (hclient : installed r'.client = Function.update (installed r.client) other (some config))
    (hfingerprints : key ∈ r'.appliedConfigFingerprints)
    (hhealth : r'.health.lookup key = r.health.lookup key) : Settled installed r' key peer where
  config := by rw [hclient, Function.update_of_ne hne, h.config]
  fingerprint := hfingerprints
  health := by
    rw [hhealth]
    exact h.health

structure Agreed (installed : C → PublicKey → Option PeerConfig) (r : PeerReconciler C) : Prop where
  keys : ∀ key, (installed r.client key).isSome ↔ key ∈ r.desired
  settled : ∀ key peer, r.desired.lookup key = some peer → Settled installed r key peer

theorem Agreed.agrees {r : PeerReconciler C} (h : Agreed installed r)
    (hsound : Sound b Known installed r) : Agrees installed r where
  keys := h.keys
  config key peer hlookup := (h.settled key peer hlookup).config
  health key peer hlookup := by
    obtain ⟨health, hhealth, hactive, hroutes⟩ := (h.settled key peer hlookup).health
    have hpeer := hsound.desired key peer hlookup
    refine ⟨health, hhealth, hactive, ?_⟩
    rw [health.activeRoute_eq, hactive, hroutes, hpeer.activeRoute, hpeer.activePolicyIndex_eq,
      List.getElem?_map]

section Apply

variable [DeviceClient C]

theorem applyPeer_triple (hledger : Ledger installed)
    (hinj : ∀ c c', Known c → Known c' → b.fingerprint c = b.fingerprint c' → c = c')
    (actual : List PublicKey) (now : ℕ) {key : PublicKey} {peer : DesiredPeer}
    (hpeer : peer.Rendered Known key) {r₀ : PeerReconciler C} (hr₀ : Sound b Known installed r₀) :
    Triple (· = r₀) (applyPeer b actual now ⟨key, peer⟩)
      (fun _ r => Sound b Known installed r ∧ Settled installed r key peer ∧
        installed r.client = Function.update (installed r₀.client) key (some peer.config) ∧
        ∀ other, other ≠ key → (other ∈ r₀.appliedConfigFingerprints →
          other ∈ r.appliedConfigFingerprints) ∧ r.health.lookup other = r₀.health.lookup other)
      (Sound b Known installed) := by
  have hkey : peer.config.publicKey = key := hpeer.publicKey
  have hconfig := applyConfig_triple hledger hinj actual peer.config (hpeer.known _) hr₀
  rw [hkey] at hconfig
  refine Triple.bind hconfig fun _ => ?_
  refine Triple.bind (Q := fun routes r => Wrote b Known installed r₀ peer.config r ∧
    routeKeysForPolicies b peer.policies = .ok routes) ?_ fun routes => ?_
  · exact Triple.ofExcept (fun routes hroutes s hs => ⟨hs, hroutes⟩) (fun s hs => hs.sound)
  · apply Triple.fromState
    intro r hr
    obtain ⟨hwrote, hroutes⟩ := hr
    obtain ⟨rfl, hfits⟩ := routeKeysForPolicies_eq_ok hroutes
    refine (trackActivePolicy_tracked hfits hpeer.activePolicyIndex_lt r key now).mono (fun _ h => h)
      (fun _ r' htrack => ?_) fun r' hfailed => ?_
    · have hclient : installed r'.client =
          Function.update (installed r₀.client) key (some peer.config) := by
        rw [htrack.client, hwrote.client, hkey]
      refine ⟨hwrote.sound.of_eq (by rw [htrack.client]) htrack.fingerprints htrack.desired, ?_,
        hclient, fun other hne => ⟨fun hmem => ?_, ?_⟩⟩
      · refine ⟨by simp [hclient], ?_, htrack.tracks⟩
        rw [htrack.fingerprints, hwrote.fingerprints]
        exact .inl hkey.symm
      · rw [htrack.fingerprints, hwrote.fingerprints]
        exact .inr hmem
      · rw [htrack.others other hne, hwrote.health]
    · rw [hfailed.1]
      exact hwrote.sound.of_eq rfl rfl rfl

theorem applyDesiredPeers_triple (hledger : Ledger installed)
    (hinj : ∀ c c', Known c → Known c' → b.fingerprint c = b.fingerprint c' → c = c')
    (actual : List PublicKey) {desired : Bounded.Map PublicKey DesiredPeer}
    (hdesired : AllRendered Known desired) (now : ℕ) :
    Triple (fun r => Sound b Known installed r ∧
        ∀ key, (installed r.client key).isSome ↔ key ∈ actual ∧ key ∈ desired)
      (applyDesiredPeers b actual desired now)
      (fun _ r => Sound b Known installed r ∧ (∀ key, (installed r.client key).isSome ↔ key ∈ desired) ∧
        ∀ key peer, desired.lookup key = some peer → Settled installed r key peer)
      (Sound b Known installed) := by
  have hloop := Triple.forEach (E := Sound b Known installed)
    (I := fun done _ r => Sound b Known installed r ∧
      (∀ key, (installed r.client key).isSome ↔ (key ∈ actual ∧ key ∈ desired) ∨ key ∈ done.keys) ∧
      ∀ entry ∈ done, Settled installed r entry.1 entry.2)
    (f := applyPeer b actual now) desired.entries ?_
  · refine hloop.mono (fun r hr => ⟨hr.1, fun key => by simp [hr.2 key], nofun⟩)
      (fun _ r hr => ⟨hr.1, fun key => ?_, fun key peer hlookup => ?_⟩) (fun _ hr => hr)
    · rw [hr.2.1 key]
      exact ⟨fun h => h.elim And.right id, .inr⟩
    · exact hr.2.2 ⟨key, peer⟩ (AList.mem_lookup_iff.mp hlookup)
  · intro done entry left hentries
    obtain ⟨key, peer⟩ := entry
    have hpeer : peer.Rendered Known key :=
      hdesired key peer (AList.mem_lookup_iff.mpr (by rw [hentries]; simp))
    have hfresh : ∀ e ∈ done, e.1 ≠ key := by
      have hnodup := desired.nodupKeys
      rw [hentries, List.nodupKeys_iff_pairwise, List.pairwise_append] at hnodup
      exact fun e he => hnodup.2.2 e he ⟨key, peer⟩ (by simp)
    apply Triple.fromState
    intro r hr
    obtain ⟨hsound, hkeys, hdone⟩ := hr
    refine (applyPeer_triple hledger hinj actual now hpeer hsound).mono (fun _ h => h)
      (fun _ r' hpost => ?_) fun _ h => h
    obtain ⟨hsound', hsettled, hclient, hothers⟩ := hpost
    refine ⟨hsound', fun other => ?_, fun e he => ?_⟩
    · rw [hclient]
      by_cases hother : other = key
      · subst hother
        simp [List.keys_append]
      · rw [Function.update_of_ne hother, hkeys other]
        simp [List.keys_append, hother]
    · rcases List.mem_append.mp he with he | he
      · have hne := hfresh e he
        exact (hdone e he).of_others hne hclient ((hothers e.1 hne).1 (hdone e he).fingerprint)
          (hothers e.1 hne).2
      · rw [List.mem_singleton.mp he]
        exact hsettled

theorem reconcileNetworkMap_triple (hledger : Ledger installed)
    (hinj : ∀ c c', Known c → Known c' → b.fingerprint c = b.fingerprint c' → c = c')
    {map : NetworkMap} (hknown : ∀ config, Renders b map config → Known config) (now : ℕ)
    (order : List PublicKey) :
    Triple (Sound b Known installed) (reconcileNetworkMap b map now order)
      (fun applied r => Sound b Known installed r ∧ (applied = true → Agreed installed r))
      (Sound b Known installed) := by
  apply Triple.bind Triple.get
  intro r₀
  split
  · exact Triple.pure false fun r hr => ⟨hr.2, nofun⟩
  · refine Triple.bind (Triple.modify (R := fun _ => Sound b Known installed)
      fun r hr => hr.2.of_eq rfl rfl rfl) fun _ => ?_
    refine Triple.bind (Q := fun desired r => Sound b Known installed r ∧ AllRendered Known desired)
      (Triple.ofExcept (fun desired hdesired r hr => ⟨hr, ?_⟩) fun r hr => hr) fun desired => ?_
    · exact desiredPeersLoop_rendered hknown (List.Subset.refl _) (fun _ _ h => by simp at h)
        (Prod.ext hdesired rfl)
    · refine Triple.bind (Q := fun desired r => Sound b Known installed r ∧ AllRendered Known desired)
        ?_ fun desired => ?_
      · intro r hr outcome r' hrun
        cases hrun
        have hordered : AllRendered Known (Bounded.reorder order desired) := by
          intro key peer hlookup
          rw [Bounded.lookup_reorder] at hlookup
          exact hr.2 key peer hlookup
        obtain ⟨hrendered, -, health, hshape⟩ := carryForwardLoop_spec (b := b)
          (Bounded.reorder order desired).keys hordered r
        refine ⟨?_, hrendered⟩
        rw [hshape]
        exact hr.1.of_eq rfl rfl rfl
      · refine Triple.bind (Q := fun actual r => (Sound b Known installed r ∧
          ∀ key, key ∈ actual ↔ (installed r.client key).isSome) ∧ AllRendered Known desired)
          (callClient_triple (fun r actual c hr hop => ?_) fun r e c hr hop => ?_) fun actual => ?_
        · have hsame := hledger.list _ _ _ hop
          refine ⟨⟨hr.1.of_eq hsame rfl rfl, fun key => ?_⟩, hr.2⟩
          rw [hledger.list_ok _ _ _ hop key]
          dsimp only
          rw [hsame]
        · exact hr.1.of_eq (hledger.list _ _ _ hop) rfl rfl
        · apply Triple.assume
          intro hrendered
          refine Triple.bind (removeVanishedPeers_triple hledger actual desired) fun _ => ?_
          refine Triple.bind (applyDesiredPeers_triple hledger hinj actual hrendered now) fun _ => ?_
          refine Triple.bind (Triple.ofExcept (fun _ _ r hr => hr) fun r hr => hr.1) fun _ => ?_
          refine Triple.bind (Triple.modify (R := fun _ r => Sound b Known installed r ∧
            Agreed installed r) fun r hr => ?_) fun _ => ?_
          · obtain ⟨hsound, hkeys, hsettled⟩ := hr
            refine ⟨⟨hsound.fingerprints, hrendered⟩, hkeys, fun key peer hlookup => ?_⟩
            have hpeer := hsettled key peer hlookup
            exact ⟨hpeer.config, hpeer.fingerprint, hpeer.health⟩
          · exact Triple.pure true fun r hr => ⟨hr.1, fun _ => hr.2⟩

end Apply

/-! ### Sampling health -/

theorem Agreed.update {r r' : PeerReconciler C} (key : PublicKey) (peer : DesiredPeer)
    (h : Agreed installed r)
    (hclient : ∀ other, other ≠ key → installed r'.client other = installed r.client other)
    (hfingerprints : ∀ other, other ∈ r.appliedConfigFingerprints →
      other ∈ r'.appliedConfigFingerprints)
    (hdesired : ∀ other, other ≠ key → r'.desired.lookup other = r.desired.lookup other)
    (hhealth : ∀ other, other ≠ key → r'.health.lookup other = r.health.lookup other)
    (hlookup : r'.desired.lookup key = some peer) (hsettled : Settled installed r' key peer) :
    Agreed installed r' where
  keys other := by
    by_cases hother : other = key
    · subst hother
      simp [hsettled.config, Bounded.mem_of_lookup hlookup]
    · rw [hclient other hother, h.keys other]
      exact (Bounded.mem_congr (hdesired other hother)).symm
  settled other p hp := by
    by_cases hother : other = key
    · subst hother
      rw [hlookup] at hp
      cases hp
      exact hsettled
    · rw [hdesired other hother] at hp
      have hold := h.settled other p hp
      exact
        { config := by rw [hclient other hother, hold.config]
          fingerprint := hfingerprints other hold.fingerprint
          health := by
            rw [hhealth other hother]
            exact hold.health }

def Views (b : Build) (Known : PeerConfig → Prop) (installed : C → PublicKey → Option PeerConfig)
    (A : Prop) (r : PeerReconciler C) : Prop :=
  Sound b Known installed r ∧ (A → Agreed installed r)

variable {A : Prop}

theorem Views.of_client {r : PeerReconciler C} {c : C} (h : Views b Known installed A r)
    (hclient : installed c = installed r.client) :
    Views b Known installed A { r with client := c } := by
  refine ⟨h.1.of_eq hclient rfl rfl, fun hA => ?_⟩
  have hagreed := h.2 hA
  refine ⟨fun key => ?_, fun key peer hlookup => ?_⟩
  · dsimp only
    rw [hclient]
    exact hagreed.keys key
  · have hsettled := hagreed.settled key peer hlookup
    refine ⟨?_, hsettled.fingerprint, hsettled.health⟩
    dsimp only
    rw [hclient]
    exact hsettled.config

theorem Views.of_rng {r : PeerReconciler C} (h : Views b Known installed A r) (rng : Rng) :
    Views b Known installed A { r with rng := rng } := by
  refine ⟨h.1.of_eq rfl rfl rfl, fun hA => ⟨(h.2 hA).keys, fun key peer hlookup => ?_⟩⟩
  have hsettled := (h.2 hA).settled key peer hlookup
  exact ⟨hsettled.config, hsettled.fingerprint, hsettled.health⟩

theorem Views.of_tracked {r r' : PeerReconciler C} {key : PublicKey} {peer : DesiredPeer}
    (h : Views b Known installed A r) (hlookup : r.desired.lookup key = some peer)
    (htracked : Tracked r key peer.activePolicyIndex (peer.policies.map RoutePolicy.routeKey) r') :
    Views b Known installed A r' := by
  have hclient : installed r'.client = installed r.client := by rw [htracked.client]
  refine ⟨h.1.of_eq hclient htracked.fingerprints htracked.desired, fun hA => ?_⟩
  have hagreed := h.2 hA
  have hsettled := hagreed.settled key peer hlookup
  refine hagreed.update key peer (fun other _ => by rw [hclient])
    (fun other hother => by rwa [htracked.fingerprints]) (fun other _ => by rw [htracked.desired])
    htracked.others (by rw [htracked.desired, hlookup]) ?_
  refine ⟨?_, ?_, htracked.tracks⟩
  · rw [hclient, hsettled.config]
  · rw [htracked.fingerprints]
    exact hsettled.fingerprint

section Health

variable [DeviceClient C]

theorem applyActivePolicy_apply (b : Build) (key : PublicKey) (policyIndex : ℕ)
    (r : PeerReconciler C) : applyActivePolicy b key policyIndex r =
      (match r.desired.lookup key with
        | none => (pure () : Pass C Unit)
        | some peer => do
          modify fun r => { r with
            desired := r.desired.replace key (peer.setActivePolicy policyIndex) }
          callClient (DeviceClient.updatePeer (peer.setActivePolicy policyIndex).config)
          insertFingerprint b key (b.fingerprint (peer.setActivePolicy policyIndex).config)) r := rfl

theorem applyActivePolicy_triple (hledger : Ledger installed) {r₀ r₁ : PeerReconciler C}
    {key : PublicKey} {peer : DesiredPeer} {nextPolicy : ℕ} (hr₀ : Views b Known installed A r₀)
    (hlookup : r₀.desired.lookup key = some peer) (hnext : nextPolicy < peer.policies.length)
    (hr₁ : Tracked r₀ key nextPolicy (peer.policies.map RoutePolicy.routeKey) r₁) :
    Triple (· = r₁) (applyActivePolicy b key nextPolicy) (fun _ => Views b Known installed A)
      (fun r => Sound b Known installed r ∧ (A →
        installed r.client = installed r₀.client ∧
        r = { r₁ with
          client := r.client
          desired := r₀.desired.replace key (peer.setActivePolicy nextPolicy) })) := by
  have hpeer := hr₀.1.desired key peer hlookup
  have hnew := hpeer.setActivePolicy nextPolicy
  have hmem : key ∈ r₀.desired := Bounded.mem_of_lookup hlookup
  have hkey : (peer.setActivePolicy nextPolicy).config.publicKey = key := hnew.publicKey
  have hindex : (peer.setActivePolicy nextPolicy).activePolicyIndex = nextPolicy :=
    hnew.activePolicyIndex_eq.trans (min_eq_left (Nat.le_sub_one_of_lt hnext))
  have hlookup₁ : r₁.desired.lookup key = some peer := by rw [hr₁.desired, hlookup]
  intro r hr outcome r' hrun
  subst hr
  have hsound : Sound b Known installed { r with
      desired := r.desired.replace key (peer.setActivePolicy nextPolicy) } := by
    refine ⟨fun k f hf => ?_, fun k p hp => ?_⟩
    · dsimp only at hf ⊢
      rw [hr₁.fingerprints] at hf
      rw [hr₁.client]
      exact hr₀.1.fingerprints k f hf
    · dsimp only at hp
      rw [hr₁.desired] at hp
      rcases (Bounded.lookup_replace_eq_some_iff hmem).mp hp with ⟨rfl, rfl⟩ | ⟨-, hp⟩
      · exact hnew
      · exact hr₀.1.desired k p hp
  have hwrite := write_triple (peer.setActivePolicy nextPolicy).config (hledger.update_ok _)
    (hledger.update_error _) (hnew.known _) hsound _ rfl outcome r'
  have hbody : applyActivePolicy b key nextPolicy r = (do
      callClient (DeviceClient.updatePeer (peer.setActivePolicy nextPolicy).config)
      insertFingerprint b (peer.setActivePolicy nextPolicy).config.publicKey
        (b.fingerprint (peer.setActivePolicy nextPolicy).config) : Pass C Unit)
      { r with desired := r.desired.replace key (peer.setActivePolicy nextPolicy) } := by
    rw [applyActivePolicy_apply, hlookup₁, hkey]
    rfl
  rw [hbody] at hrun
  have hpost := hwrite hrun
  cases outcome with
  | error e =>
    refine ⟨hpost.1, fun hA => ?_⟩
    have hrecorded : key ∈ r.appliedConfigFingerprints := by
      rw [hr₁.fingerprints]
      exact ((hr₀.2 hA).settled key peer hlookup).fingerprint
    obtain ⟨hsame, hshape⟩ := hpost.2 (by rwa [hkey])
    refine ⟨?_, ?_⟩
    · rw [hsame, hr₁.client]
    · rw [hshape, hr₁.desired]
  | ok _ =>
    refine ⟨hpost.sound, fun hA => ?_⟩
    have hclient := hpost.client
    have hdesired := hpost.desired
    dsimp only at hclient hdesired
    rw [hkey, hr₁.client] at hclient
    rw [hr₁.desired] at hdesired
    refine (hr₀.2 hA).update key (peer.setActivePolicy nextPolicy)
      (fun other hne => ?_) (fun other hother => ?_) (fun other hne => ?_) (fun other hne => ?_) ?_ ?_
    · rw [hclient, Function.update_of_ne hne]
    · rw [hpost.fingerprints]
      right
      rwa [hr₁.fingerprints]
    · rw [hdesired, Bounded.lookup_replace_ne _ hne]
    · rw [hpost.health, hr₁.others other hne]
    · rw [hdesired, Bounded.lookup_replace_self _ hmem]
    · refine ⟨by rw [hclient, Function.update_self], ?_, ?_⟩
      · rw [hpost.fingerprints, hkey]
        exact .inl rfl
      · rw [hpost.health, hindex]
        exact hr₁.tracks

omit [DeviceClient C] in
theorem rollBack_triple {r₀ r₁ : PeerReconciler C} {key : PublicKey} {peer : DesiredPeer}
    {nextPolicy : ℕ} {previousHealth : PeerHealth} {routes : List RouteKey}
    {Q : Unit → PeerReconciler C → Prop} (hr₀ : Views b Known installed A r₀)
    (hlookup : r₀.desired.lookup key = some peer)
    (hprevious : r₀.health.lookup key = some previousHealth)
    (hr₁ : Tracked r₀ key nextPolicy routes r₁) (e : ReconcileError) :
    Triple (fun r => Sound b Known installed r ∧ (A →
        installed r.client = installed r₀.client ∧
        r = { r₁ with
          client := r.client
          desired := r₀.desired.replace key (peer.setActivePolicy nextPolicy) }))
      (rollBack b key previousHealth peer.activePolicyIndex e) Q (Views b Known installed A) := by
  have hpeer := hr₀.1.desired key peer hlookup
  have hmem : key ∈ r₀.desired := Bounded.mem_of_lookup hlookup
  apply Triple.fromState
  intro r hr
  refine Triple.bind (insertHealth_triple (Q := fun _ s => s =
    { r with health := r.health.insert key previousHealth }) (fun s hs => ?_) fun s hs hnone => ?_)
    fun _ => ?_
  · subst hs
    rfl
  · subst hs
    refine ⟨hr.1, fun hA => ?_⟩
    obtain ⟨-, hshape⟩ := hr.2 hA
    obtain ⟨health, hhealth, -⟩ := hr₁.tracks
    rw [hshape] at hnone
    rw [hhealth] at hnone
    cases hnone
  · refine Triple.bind (Q := fun _ => Views b Known installed A) (Triple.modify fun s hs => ?_)
      fun _ => Triple.fail fun _ hs => hs
    subst hs
    refine ⟨⟨hr.1.fingerprints, fun k p hp => ?_⟩, fun hA => ?_⟩
    · -- Whatever the desired peer is by now, choosing a policy keeps it well formed.
      dsimp only at hp
      cases hnow : r.desired.lookup key with
      | none =>
        rw [hnow] at hp
        exact hr.1.desired k p hp
      | some current =>
        rw [hnow, Option.elim_some] at hp
        rcases (Bounded.lookup_replace_eq_some_iff (Bounded.mem_of_lookup hnow)).mp hp with
          ⟨rfl, rfl⟩ | ⟨-, hp⟩
        · exact (hr.1.desired k current hnow).setActivePolicy _
        · exact hr.1.desired k p hp
    · obtain ⟨hclient, hshape⟩ := hr.2 hA
      have hagreed := hr₀.2 hA
      have hsettled := hagreed.settled key peer hlookup
      have hdesired : r.desired = r₀.desired.replace key (peer.setActivePolicy nextPolicy) := by
        rw [hshape]
      have hfingerprints : r.appliedConfigFingerprints = r₀.appliedConfigFingerprints := by
        rw [hshape]
        exact hr₁.fingerprints
      have hhealth : r.health = r₁.health := by rw [hshape]
      have hnow : r.desired.lookup key = some (peer.setActivePolicy nextPolicy) := by
        rw [hdesired, Bounded.lookup_replace_self _ hmem]
      have hback : (peer.setActivePolicy nextPolicy).setActivePolicy peer.activePolicyIndex = peer :=
        hpeer.setActivePolicy_self
      refine hagreed.update key peer (fun other _ => by rw [hclient])
        (fun other hother => by rwa [hfingerprints]) (fun other hne => ?_) (fun other hne => ?_) ?_ ?_
      · dsimp only
        rw [hnow, Option.elim_some, Bounded.lookup_replace_ne _ hne, hdesired,
          Bounded.lookup_replace_ne _ hne]
      · dsimp only
        rw [AList.lookup_insert_ne hne, hhealth, hr₁.others other hne]
      · dsimp only
        rw [hnow, Option.elim_some, Bounded.lookup_replace_self _ (Bounded.mem_of_lookup hnow), hback]
      · refine ⟨?_, ?_, previousHealth, AList.lookup_insert _, ?_⟩
        · dsimp only
          rw [hclient, hsettled.config]
        · dsimp only
          rw [hfingerprints]
          exact hsettled.fingerprint
        · obtain ⟨health, hold, htracks⟩ := hsettled.health
          rw [hprevious] at hold
          cases hold
          exact htracks

theorem trackActivePolicy_views {key : PublicKey} {peer : DesiredPeer}
    (hfits : ∀ c ∈ b.profile.maxRoutes, (peer.policies.map RoutePolicy.routeKey).length ≤ c)
    (now : ℕ) :
    Triple (fun r => Views b Known installed A r ∧ r.desired.lookup key = some peer)
      (trackActivePolicy b key peer.activePolicyIndex (peer.policies.map RoutePolicy.routeKey) now)
      (fun _ r => Views b Known installed A r ∧ r.desired.lookup key = some peer ∧
        ∃ health, r.health.lookup key = some health ∧
          Tracks health peer.activePolicyIndex (peer.policies.map RoutePolicy.routeKey))
      (Views b Known installed A) := by
  apply Triple.fromState
  intro r hr
  obtain ⟨hviews, hlookup⟩ := hr
  have hactive := (hviews.1.desired key peer hlookup).activePolicyIndex_lt
  refine (trackActivePolicy_tracked hfits hactive r key now).mono (fun _ h => h)
    (fun _ r' htrack => ?_) fun r' hfailed => ?_
  · exact ⟨hviews.of_tracked hlookup htrack, by rw [htrack.desired, hlookup], htrack.tracks⟩
  · rw [hfailed.1]
    exact hviews.of_rng _

theorem samplePeerHealth_triple (hledger : Ledger installed) (now : ℕ) (key : PublicKey) :
    Triple (Views b Known installed A) (samplePeerHealth b now key)
      (fun _ => Views b Known installed A) (Views b Known installed A) := by
  apply Triple.bind Triple.get
  intro r₀
  split
  · exact Triple.pure () fun r hr => hr.2
  · rename_i peer hlookup
    refine Triple.bind (Q := fun routes r => (Views b Known installed A r ∧
        r.desired.lookup key = some peer) ∧ routeKeysForPolicies b peer.policies = .ok routes)
      (Triple.ofExcept (fun routes hroutes r hr => ⟨⟨hr.2, hr.1 ▸ hlookup⟩, hroutes⟩)
        fun r hr => hr.2) fun routes => Triple.assume fun hroutes => ?_
    obtain ⟨rfl, hfits⟩ := routeKeysForPolicies_eq_ok hroutes
    split
    · exact Triple.pure () fun r hr => hr.1
    · refine Triple.bind (callClient_triple (Q := fun _ r => Views b Known installed A r ∧
          r.desired.lookup key = some peer)
        (fun r info c hr hop => ⟨hr.1.of_client (hledger.get _ _ _ _ hop), hr.2⟩)
        fun r e c hr hop => hr.1.of_client (hledger.get _ _ _ _ hop)) fun info => ?_
      refine Triple.bind (trackActivePolicy_views hfits now) fun _ => ?_
      apply Triple.bind Triple.get
      intro r₁
      split
      · exact Triple.fault
      · rename_i previousHealth hprevious
        intro r hr outcome r' hrun
        obtain ⟨rfl, hviews, hdesired, health, hhealth, htracks⟩ := hr
        rw [hprevious] at hhealth
        cases hhealth
        have hactive := (hviews.1.desired key peer hdesired).activePolicyIndex_lt
        have hobserved := observe_tracks hfits hactive htracks info.stats now
        generalize previousHealth.observe b.profile info.stats
          (peer.policies.map RoutePolicy.routeKey) now = d at hobserved hrun
        have hmoved := Tracked.replace hprevious hobserved.1
        revert hrun
        refine Triple.bind (P := (· = r₁)) (Q := fun _ r => r =
          { r₁ with health := r₁.health.replace key d.2 }) (Triple.modify ?_) (fun _ => ?_) r₁ rfl
          outcome r'
        · intro s hs
          rw [hs]
        · obtain ⟨decision, health⟩ := d
          have hkeep : policyAfter peer.activePolicyIndex decision = peer.activePolicyIndex →
              Triple (fun r => r = { r₁ with health := r₁.health.replace key health })
                (pure () : Pass C Unit) (fun _ => Views b Known installed A)
                (Views b Known installed A) := by
            intro hsame
            apply Triple.pure
            intro s hs
            rw [hs]
            rw [hsame] at hmoved
            exact hviews.of_tracked hdesired hmoved
          cases decision with
          | switch nextPolicy reason =>
            have hlt : nextPolicy < peer.policies.length := by
              simpa [policyAfter] using hobserved.2
            exact Triple.catching (applyActivePolicy_triple hledger hviews hdesired hlt hmoved)
              fun e => rollBack_triple hviews hdesired hprevious hmoved e
          | stay => exact hkeep rfl
          | peerInactive => exact hkeep rfl
          | noViablePolicy => exact hkeep rfl

theorem reconcilePeerHealth_triple (hledger : Ledger installed) (now : ℕ) :
    Triple (Views b Known installed A) (reconcilePeerHealth b now)
      (fun _ => Views b Known installed A) (Views b Known installed A) := by
  apply Triple.bind Triple.get
  intro r₀
  refine Triple.bind (Triple.ofExcept (Q := fun _ => Views b Known installed A)
    (fun _ _ r hr => hr.2) fun r hr => hr.2) fun keys => ?_
  exact Triple.forEach (I := fun _ _ => Views b Known installed A) keys fun done key left hkeys =>
    samplePeerHealth_triple hledger now key

theorem step_views (hledger : Ledger installed) {r r' : PeerReconciler C} {now : ℕ}
    {o : Except ReconcileError Bool} (hr : Views b Known installed A r)
    (h : step b r (.peerHealth now) = .ok (o, r')) : Views b Known installed A r' := by
  have hcall : Triple (Views b Known installed A)
      (do reconcilePeerHealth b now; pure false : Pass C Bool) (fun _ => Views b Known installed A)
      (Views b Known installed A) :=
    Triple.bind (reconcilePeerHealth_triple hledger now) fun _ => Triple.pure false fun _ hs => hs
  have hpost := hcall r hr o r' h
  cases o with
  | ok applied => exact hpost
  | error e => exact hpost

def mapsOf (requests : List Request) : List NetworkMap :=
  requests.filterMap fun
    | .networkMap map _ _ => some map
    | .peerHealth _ => none

theorem step_sound (hledger : Ledger installed)
    (hinj : ∀ c c', Known c → Known c' → b.fingerprint c = b.fingerprint c' → c = c')
    {request : Request} (hknown : ∀ map ∈ mapsOf [request], ∀ c, Renders b map c → Known c)
    {r r' : PeerReconciler C} {o : Except ReconcileError Bool} (hr : Sound b Known installed r)
    (h : step b r request = .ok (o, r')) :
    Sound b Known installed r' ∧ (o = .ok true → Agreed installed r') := by
  cases request with
  | networkMap map now order =>
    have hpost := reconcileNetworkMap_triple hledger hinj (hknown map (by simp [mapsOf])) now order r
      hr o r' h
    cases o with
    | ok applied => exact ⟨hpost.1, fun htrue => hpost.2 (Except.ok.inj htrue)⟩
    | error e => exact ⟨hpost, nofun⟩
  | peerHealth now =>
    have hviews := step_views (A := False) hledger ⟨hr, nofun⟩ h
    refine ⟨hviews.1, fun htrue => ?_⟩
    subst htrue
    have hcall : Triple (fun _ => True) (do reconcilePeerHealth b now; pure false : Pass C Bool)
        (fun applied _ => applied = false) (fun _ => True) :=
      Triple.bind Triple.true fun _ => Triple.pure false fun _ _ => rfl
    exact absurd (hcall r trivial _ _ h) (by simp)

theorem run_views_agree (hledger : Ledger installed) {client : C} {directories : List NetMap.Peer}
    {rng : Rng} {before after : List Request} {map : NetworkMap} {now : ℕ} {order : List PublicKey}
    {os os' : List (Except ReconcileError Bool)} {r r' r'' : PeerReconciler C}
    (hfingerprint : Set.InjOn b.fingerprint
      {config | ∃ m ∈ mapsOf (before ++ [.networkMap map now order]), Renders b m config})
    (hbefore : Machine.run (step b) (new client directories rng) before = .ok (os, r))
    (happlied : step b r (.networkMap map now order) = .ok (.ok true, r'))
    (hafter : ∀ request ∈ after, ∃ now, request = .peerHealth now)
    (hrun : Machine.run (step b) r' after = .ok (os', r'')) : Agrees installed r'' := by
  let Known : PeerConfig → Prop := fun config =>
    ∃ m ∈ mapsOf (before ++ [.networkMap map now order]), Renders b m config
  have hinj : ∀ c c', Known c → Known c' → b.fingerprint c = b.fingerprint c' → c = c' :=
    fun c c' hc hc' h => hfingerprint hc hc' h
  have hknown : ∀ request ∈ before ++ [.networkMap map now order],
      ∀ m ∈ mapsOf [request], ∀ c, Renders b m c → Known c := by
    intro request hrequest m hm c hc
    refine ⟨m, ?_, hc⟩
    simp only [mapsOf, List.mem_filterMap, List.mem_singleton] at hm ⊢
    obtain ⟨_, rfl, hm⟩ := hm
    exact ⟨_, hrequest, hm⟩
  have hstart : Sound b Known installed (new client directories rng) :=
    ⟨fun key f hf => by simp [new] at hf, fun key peer hpeer => by simp [new] at hpeer⟩
  have hsound : Sound b Known installed r :=
    Machine.run_invariant (fun s request o s' hmem hs hstep =>
      (step_sound hledger hinj (hknown request (by simp [hmem])) hs hstep).1) hbefore hstart
  obtain ⟨hsound', hagreed⟩ := step_sound hledger hinj (hknown _ (by simp)) hsound happlied
  have hviews : Views b Known installed True r'' := by
    refine Machine.run_invariant (fun s request o s' hmem hs hstep => ?_) hrun
      ⟨hsound', fun _ => hagreed rfl⟩
    obtain ⟨now, rfl⟩ := hafter request hmem
    exact step_views hledger hs hstep
  exact (hviews.2 trivial).agrees hviews.1

end Health

end PeerReconciler

end Tendrilix.Control

/-! ### A switch that the device refuses -/

namespace Tendrilix.Sample

open Control PeerReconciler

theorem flakyDevice_ledger : Ledger FlakyDevice.installed := by
  have hattempt : ∀ {α : Type} {d after d' : FlakyDevice} {a : α} {r : Except Device.Error α},
      d.attempt a after = .ok (r, d') →
        (r = .ok a ∧ d'.peers = after.peers) ∨ (∃ e, r = .error e) ∧ d'.peers = d.peers := by
    intro α d after d' a r h
    rw [FlakyDevice.attempt] at h
    split at h
    · cases h
      exact .inr ⟨⟨_, rfl⟩, rfl⟩
    · cases h
      exact .inl ⟨rfl, rfl⟩
  have hinsert : ∀ (d d' : FlakyDevice) (config : PeerConfig),
      d'.peers = d.peers.insert config.publicKey config →
        d'.installed = Function.update d.installed config.publicKey (some config) := by
    intro d d' config h
    funext key
    rw [FlakyDevice.installed, h]
    by_cases hkey : key = config.publicKey
    · subst hkey
      simp
    · rw [Function.update_of_ne hkey, AList.lookup_insert_ne hkey]
      rfl
  have hsame : ∀ {d d' : FlakyDevice}, d'.peers = d.peers → d'.installed = d.installed := by
    intro d d' h
    funext key
    rw [FlakyDevice.installed, h]
    rfl
  constructor
  · intro config d d' h
    rcases hattempt h with ⟨-, hpeers⟩ | ⟨⟨e, he⟩, -⟩
    · exact hinsert d d' config hpeers
    · cases he
  · intro config d e d' h
    rcases hattempt h with ⟨he, -⟩ | ⟨-, hpeers⟩
    · cases he
    · exact hsame hpeers
  · intro config d d' h
    rcases hattempt h with ⟨-, hpeers⟩ | ⟨⟨e, he⟩, -⟩
    · exact hinsert d d' config hpeers
    · cases he
  · intro config d e d' h
    rcases hattempt h with ⟨he, -⟩ | ⟨-, hpeers⟩
    · cases he
    · exact hsame hpeers
  · intro key d d' h
    rcases hattempt h with ⟨-, hpeers⟩ | ⟨⟨e, he⟩, -⟩
    · funext other
      rw [FlakyDevice.installed, hpeers]
      by_cases hother : other = key
      · subst hother
        simp
      · rw [Function.update_of_ne hother, AList.lookup_erase_ne hother]
        rfl
    · cases he
  · intro key d e d' h
    rcases hattempt h with ⟨he, -⟩ | ⟨-, hpeers⟩
    · cases he
    · exact hsame hpeers
  · intro key d r d' h
    rcases hattempt h with ⟨-, hpeers⟩ | ⟨-, hpeers⟩
    · exact hsame hpeers
    · exact hsame hpeers
  · intro d r d' h
    rcases hattempt h with ⟨-, hpeers⟩ | ⟨-, hpeers⟩
    · exact hsame hpeers
    · exact hsame hpeers
  · intro d keys d' h key
    rcases hattempt h with ⟨hkeys, -⟩ | ⟨⟨e, he⟩, -⟩
    · cases hkeys
      rw [FlakyDevice.installed, AList.lookup_isSome, AList.mem_keys]
    · cases he

def twoEndpoints : NetMap.Peer where
  id := 2
  publicKey := (key 2).toKeyBytes
  tunnelIp := some (.v4 0x0a000201#32)
  isDirectory := false
  routes := [⟨0, .direct (some (addr 2))⟩, ⟨1, .direct (some (addr 3))⟩]

def instantAt (seconds : ℕ) (h : seconds < 1000) : NetMap.DateTime :=
  ⟨seconds, 0, by omega, NetMap.DateTime.zero_nanos_lt, fun hleap => absurd hleap (by decide)⟩

def netMap : NetMap.NetworkMap where
  updatedAt := ⟨1, 0, by decide, NetMap.DateTime.zero_nanos_lt, by decide⟩
  peers := [twoEndpoints]

def netMapConfigs : List PeerConfig :=
  [some (addr 2), some (addr 3), none].map fun endpoint =>
    ⟨key 2, endpoint, [DesiredPeer.hostNet (.v4 0x0a000201#32)], none, none⟩

theorem renders_netMap {config : PeerConfig} (h : Renders build netMap config) :
    config ∈ netMapConfigs := by
  obtain ⟨peer, hpeer, allowedIps, policies, i, hips, hpolicies, rfl⟩ := h
  obtain rfl : peer = twoEndpoints := by simpa [netMap] using hpeer
  have hips' : collect build.profile.maxAllowedIpsPerPeer twoEndpoints.tunnelIp.toList "allowed IPs" =
      .ok [.v4 0x0a000201#32] := by decide
  have hpolicies' : routePoliciesForPeer build netMap twoEndpoints =
      .ok [.direct (some (addr 2)) 0, .direct (some (addr 3)) 1] := by decide +kernel
  cases hips'.symm.trans hips
  cases hpolicies'.symm.trans hpolicies
  match i with
  | 0 => decide +kernel
  | 1 => decide +kernel
  | i + 2 =>
    have hnone : [RoutePolicy.direct (some (addr 2)) 0, .direct (some (addr 3)) 1][i + 2]? = none := rfl
    simp only [DesiredPeer.configForPolicy, desiredPeer, hnone]
    decide +kernel

def flaky : FlakyDevice := { refusals := [false, false, false, false, false, true] }

def samplings : List Request :=
  [.peerHealth (secs 10), .peerHealth (secs 200), .peerHealth (secs 400), .peerHealth (secs 600)]

theorem run_views_agree_refused_switch :
    ∃ r os r', step build (new flaky [] ⟨fun _ => 0, 0⟩) (.networkMap netMap 0 []) = .ok (.ok true, r) ∧
      Machine.run (step build) r samplings = .ok (os, r') ∧
      os = [.ok false, .ok false, .error (.device .io), .ok false] ∧
      Agrees FlakyDevice.installed r' := by
  have hrun : okAnd (fun p => decide (p.1 = .ok true) && okAnd (fun q =>
      decide (q.1 = [.ok false, .ok false, .error (.device .io), .ok false]))
      (Machine.run (step build) p.2 samplings))
      (step build (new flaky [] ⟨fun _ => 0, 0⟩) (.networkMap netMap 0 [])) = true := by
    decide +kernel
  obtain ⟨⟨o, r⟩, happlied, hran⟩ := exists_of_okAnd hrun
  rw [Bool.and_eq_true, decide_eq_true_eq] at hran
  obtain ⟨ho, hran⟩ := hran
  dsimp only at ho
  subst ho
  obtain ⟨⟨os, r'⟩, hsampled, hos⟩ := exists_of_okAnd hran
  refine ⟨r, os, r', happlied, hsampled, of_decide_eq_true hos, ?_⟩
  have hbefore : Machine.run (step build) (new flaky [] ⟨fun _ => 0, 0⟩) [] = .ok ([], _) := rfl
  refine run_views_agree flakyDevice_ledger ?_ hbefore happlied ?_ hsampled
  · intro c hc c' hc' heq
    have hmem : ∀ c, (∃ m ∈ mapsOf ([] ++ [.networkMap netMap 0 []]), Renders build m c) →
        c ∈ netMapConfigs := by
      intro c hc
      obtain ⟨m, hm, hc⟩ := hc
      obtain rfl : m = netMap := by simpa [mapsOf] using hm
      exact renders_netMap hc
    have hdistinct : ∀ c ∈ netMapConfigs, ∀ c' ∈ netMapConfigs,
        build.fingerprint c = build.fingerprint c' → c = c' := by
      decide +kernel
    exact hdistinct c (hmem c hc) c' (hmem c' hc') heq
  · intro request hrequest
    simp only [samplings, List.mem_cons, List.not_mem_nil, or_false] at hrequest
    rcases hrequest with rfl | rfl | rfl | rfl
    · exact ⟨_, rfl⟩
    · exact ⟨_, rfl⟩
    · exact ⟨_, rfl⟩
    · exact ⟨_, rfl⟩

end Tendrilix.Sample

