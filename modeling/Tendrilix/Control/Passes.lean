import Tendrilix.Control.DesiredPeers

/-!
# What a pass changes

A pass over a map and a sampling of health call the device, draw random numbers and write health and
fingerprints all the time. The directories, the time of the last map and the peers wanted, apart from
the policies they are on, change only once a map has been applied.
-/

namespace Tendrilix.Control

open Attempt
open NetMap (NetworkMap)

variable {C : Type} {b : Build} {map : NetworkMap} {now : ℕ} {order : List PublicKey} {key : PublicKey}
  {desired desired' : Bounded.Map PublicKey DesiredPeer}

/-! ### The addresses that a map gives out -/

def Allots (map : NetworkMap) (desired : Bounded.Map PublicKey DesiredPeer) : Prop :=
  ∀ key, (desired.lookup key).map (·.allowedIps) =
    (lastPeer map.peers key).map (·.tunnelIp.toList)

theorem desiredPeersLoop_allowedIps {peers : List NetMap.Peer} {rng rng' : Rng}
    (h : desiredPeersLoop b map peers desired rng = (.ok desired', rng')) (key : PublicKey) :
    (desired'.lookup key).map (·.allowedIps) =
      ((lastPeer peers key).map (·.tunnelIp.toList)).or ((desired.lookup key).map (·.allowedIps)) := by
  induction peers generalizing desired rng with
  | nil =>
    cases h
    rfl
  | cons peer rest ih =>
    rw [desiredPeersLoop] at h
    rw [lastPeer_cons]
    split at h
    · cases h
    · cases h
    · rename_i allowedIps policies hips hpolicies
      split at h
      · rename_i hempty
        exact absurd (List.isEmpty_iff.mp hempty) (routePoliciesForPeer_normalized hpolicies).nonempty
      · dsimp only at h
        split at h
        · cases h
        · rename_i inserted hinsert
          rw [Bounded.tryInsertEntry_eq_some hinsert] at h
          rw [ih h]
          cases hlast : lastPeer rest key with
          | some p => rfl
          | none =>
            rw [Option.map_none, Option.none_or, Option.none_or]
            by_cases hkey : peer.publicKey = key
            · subst hkey
              rw [AList.lookup_insert, if_pos rfl, Option.map_some, Option.map_some, Option.some_or,
                desiredPeer, (collect_eq_ok hips).1]
            · rw [AList.lookup_insert_ne (Ne.symm hkey), if_neg hkey, Option.map_none, Option.none_or]

theorem desiredPeersFromMap_allots {rng : Rng} (h : (desiredPeersFromMap b map rng).1 = .ok desired) :
    Allots map desired := by
  intro key
  rw [desiredPeersLoop_allowedIps (Prod.ext h rfl) key, AList.lookup_empty, Option.map_none, Option.or_none]

theorem Allots.reorder (h : Allots map desired) : Allots map (Bounded.reorder order desired) := by
  intro key
  rw [Bounded.lookup_reorder, h key]

theorem Allots.replace (h : Allots map desired) {peer peer' : DesiredPeer}
    (hlookup : desired.lookup key = some peer) (hips : peer'.allowedIps = peer.allowedIps) :
    Allots map (desired.replace key peer') := by
  intro other
  rw [← h other]
  by_cases hother : other = key
  · subst hother
    rw [Bounded.lookup_replace_self _ (Bounded.mem_of_lookup hlookup), hlookup, Option.map_some, hips]
    rfl
  · rw [Bounded.lookup_replace_ne _ hother]

namespace PeerReconciler

theorem carryForwardPeer_allowedIps {peer : DesiredPeer} (r : PeerReconciler C) :
    (carryForwardPeer b key peer r).1.allowedIps = peer.allowedIps := by
  rw [carryForwardPeer]
  split
  · rfl
  · rfl

theorem carryForwardLoop_allots {keys : List PublicKey} (h : Allots map desired)
    (r : PeerReconciler C) : Allots map (carryForwardLoop b keys desired r).1 := by
  induction keys generalizing desired r with
  | nil => exact h
  | cons key keys ih =>
    rw [carryForwardLoop]
    split
    · exact ih h r
    · rename_i peer hlookup
      exact ih (h.replace hlookup (carryForwardPeer_allowedIps r)) _

/-! ### The frame of a pass -/

structure Insensitive (I : PeerReconciler C → Prop) : Prop where
  client : ∀ {r : PeerReconciler C} c, I r → I { r with client := c }
  rng : ∀ {r : PeerReconciler C} rng, I r → I { r with rng := rng }
  health : ∀ {r : PeerReconciler C} health, I r → I { r with health := health }
  fingerprints : ∀ {r : PeerReconciler C} fingerprints, I r →
    I { r with appliedConfigFingerprints := fingerprints }
  policy : ∀ {r : PeerReconciler C} {key peer} policyIndex, r.desired.lookup key = some peer → I r →
    I { r with desired := r.desired.replace key (peer.setActivePolicy policyIndex) }

variable {I : PeerReconciler C → Prop}

theorem Insensitive.callClient (hI : Insensitive I) {α : Type}
    {op : C → Call (Except Device.Error α × C)} : Keeps I (callClient op) :=
  callClient_triple (fun _ _ c hr _ => hI.client c hr) fun _ _ c hr _ => hI.client c hr

theorem Insensitive.insertFingerprint (hI : Insensitive I) {f : ℕ} :
    Keeps I (insertFingerprint b key f) :=
  insertFingerprint_triple (fun _ hr => hI.fingerprints _ hr) fun _ hr _ => hr

theorem Insensitive.insertHealth (hI : Insensitive I) {health : PeerHealth} :
    Keeps I (insertHealth b key health) :=
  insertHealth_triple (fun _ hr => hI.health _ hr) fun _ hr _ => hr

theorem Insensitive.trackActivePolicy (hI : Insensitive I) {activePolicy : ℕ}
    {routes : List RouteKey} : Keeps I (trackActivePolicy b key activePolicy routes now) :=
  trackActivePolicy_triple (fun _ _ hr _ => hI.health _ hr)
    (fun _ rng _ hr _ => hI.health _ (hI.rng rng hr)) fun _ rng hr _ => hI.rng rng hr

theorem Insensitive.rollBack (hI : Insensitive I) {previousHealth : PeerHealth} {activePolicy : ℕ}
    {e : ReconcileError} : Keeps I (rollBack b key previousHealth activePolicy e) := by
  refine hI.insertHealth.bind fun _ => Keeps.bind (Keeps.modify fun r hr => ?_) fun _ => Keeps.fail e
  cases hlookup : r.desired.lookup key with
  | none => exact hr
  | some peer => exact hI.policy activePolicy hlookup hr

theorem Insensitive.carryForwardPeer (hI : Insensitive I) {peer : DesiredPeer} {r : PeerReconciler C}
    (hr : I r) : I (carryForwardPeer b key peer r).2 := by
  rw [PeerReconciler.carryForwardPeer]
  split
  · exact hr
  · exact hI.health _ hr

theorem Insensitive.carryForwardLoop (hI : Insensitive I) {keys : List PublicKey}
    {r : PeerReconciler C} (hr : I r) : I (carryForwardLoop b keys desired r).2 := by
  induction keys generalizing desired r with
  | nil => exact hr
  | cons key keys ih =>
    rw [PeerReconciler.carryForwardLoop]
    split
    · exact ih hr
    · exact ih (hI.carryForwardPeer hr)

theorem Insensitive.and_last (hI : Insensitive I) (last : Option NetMap.DateTime) :
    Insensitive fun r => I r ∧ r.lastAppliedMapUpdatedAt = last where
  client c h := ⟨hI.client c h.1, h.2⟩
  rng rng h := ⟨hI.rng rng h.1, h.2⟩
  health health h := ⟨hI.health health h.1, h.2⟩
  fingerprints fingerprints h := ⟨hI.fingerprints fingerprints h.1, h.2⟩
  policy i hlookup h := ⟨hI.policy i hlookup h.1, h.2⟩

variable [DeviceClient C]

theorem Insensitive.removeVanishedPeers (hI : Insensitive I) {actual : List PublicKey} :
    Keeps I (removeVanishedPeers actual desired) := by
  refine Keeps.forEach fun key _ => ?_
  rw [removeVanishedPeer]
  split
  · exact Keeps.pure ()
  · exact hI.callClient.bind fun _ => Keeps.modify fun r hr =>
      hI.fingerprints (r.appliedConfigFingerprints.erase key) (hI.health (r.health.erase key) hr)

theorem Insensitive.applyConfig (hI : Insensitive I) {actual : List PublicKey} {config : PeerConfig} :
    Keeps I (applyConfig b actual key config) := by
  rw [PeerReconciler.applyConfig]
  split
  · refine Keeps.get.bind fun r => ?_
    split
    · exact hI.callClient.bind fun _ => hI.insertFingerprint
    · exact Keeps.pure ()
  · exact hI.callClient.bind fun _ => hI.insertFingerprint

theorem Insensitive.applyDesiredPeers (hI : Insensitive I) {actual : List PublicKey} :
    Keeps I (applyDesiredPeers b actual desired now) :=
  Keeps.forEach fun _ _ => hI.applyConfig.bind fun _ =>
    (Keeps.ofExcept _).bind fun _ => hI.trackActivePolicy

theorem Insensitive.applyActivePolicy (hI : Insensitive I) {policyIndex : ℕ} :
    Keeps I (applyActivePolicy b key policyIndex) := by
  refine Triple.bind Triple.get fun r => ?_
  split
  · exact Triple.pure () fun _ hs => hs.2
  · rename_i peer hlookup
    refine Triple.bind (Q := fun _ => I) (Triple.modify fun s hs => ?_) fun _ => ?_
    · obtain ⟨rfl, hs⟩ := hs
      exact hI.policy policyIndex hlookup hs
    · exact hI.callClient.bind fun _ => hI.insertFingerprint

theorem Insensitive.samplePeerHealth (hI : Insensitive I) : Keeps I (samplePeerHealth b now key) := by
  refine Keeps.get.bind fun r => ?_
  split
  · exact Keeps.pure ()
  refine (Keeps.ofExcept _).bind fun routes => ?_
  split
  · exact Keeps.pure ()
  refine hI.callClient.bind fun info => hI.trackActivePolicy.bind fun _ => ?_
  refine Keeps.get.bind fun r => ?_
  split
  · exact Keeps.fault _
  refine Keeps.bind (Keeps.modify fun s hs => ?_) fun _ => ?_
  · exact hI.health _ hs
  split
  · exact hI.applyActivePolicy.catching fun _ => hI.rollBack
  · exact Keeps.pure ()

theorem Insensitive.reconcilePeerHealth (hI : Insensitive I) : Keeps I (reconcilePeerHealth b now) :=
  Keeps.get.bind fun _ => (Keeps.ofExcept _).bind fun _ => Keeps.forEach fun _ _ => hI.samplePeerHealth

structure Applied (map : NetworkMap) (r₀ r : PeerReconciler C) : Prop where
  newer : ∀ updatedAt ∈ r₀.lastAppliedMapUpdatedAt, updatedAt < map.updatedAt
  directories : r.directories = map.peers.filter (·.isDirectory)
  last : r.lastAppliedMapUpdatedAt = some map.updatedAt
  allots : Allots map r.desired

theorem Insensitive.reconcileNetworkMap (hI : Insensitive I) :
    Triple I (reconcileNetworkMap b map now order)
      (fun applied r => if applied then ∃ r₀, I r₀ ∧ Applied map r₀ r else I r) I := by
  apply Triple.bind Triple.get
  intro r
  split
  · exact Triple.pure false fun _ hs => hs.2
  · rename_i hfresh
    have hJ := hI.and_last r.lastAppliedMapUpdatedAt
    have hnewer : ∀ updatedAt ∈ r.lastAppliedMapUpdatedAt, updatedAt < map.updatedAt := by
      intro updatedAt hlast
      rw [isStale, Option.mem_def.mp hlast] at hfresh
      simpa using hfresh
    refine Triple.mono (P := fun s => I s ∧ s.lastAppliedMapUpdatedAt = r.lastAppliedMapUpdatedAt)
      (E := fun s => I s ∧ s.lastAppliedMapUpdatedAt = r.lastAppliedMapUpdatedAt) ?_
      (fun s hs => ⟨hs.2, hs.1 ▸ rfl⟩) (fun _ _ hs => hs) fun _ hs => hs.1
    refine Triple.bind (Keeps.modify fun s hs => hJ.rng (desiredPeersFromMap b map r.rng).2 hs)
      fun _ => ?_
    refine Triple.bind (Q := fun desired s =>
      (I s ∧ s.lastAppliedMapUpdatedAt = r.lastAppliedMapUpdatedAt) ∧ Allots map desired)
      (Triple.ofExcept (fun desired hdesired s hs => ⟨hs, desiredPeersFromMap_allots hdesired⟩)
        fun _ hs => hs) fun desired => ?_
    refine Triple.bind (Q := fun desired s =>
      (I s ∧ s.lastAppliedMapUpdatedAt = r.lastAppliedMapUpdatedAt) ∧ Allots map desired)
      (fun s hs outcome s' hrun => ?_) fun desired => ?_
    · cases hrun
      exact ⟨hJ.carryForwardLoop hs.1, carryForwardLoop_allots hs.2.reorder s⟩
    refine Triple.assume fun hallots => ?_
    refine Triple.bind hJ.callClient fun actual => ?_
    refine Triple.bind hJ.removeVanishedPeers fun _ => ?_
    refine Triple.bind hJ.applyDesiredPeers fun _ => ?_
    refine Triple.bind (Q := fun found s => found = map.peers.filter (·.isDirectory) ∧
      I s ∧ s.lastAppliedMapUpdatedAt = r.lastAppliedMapUpdatedAt)
      (Triple.ofExcept (fun found hfound s hs => ⟨(collect_eq_ok hfound).1, hs⟩) fun _ hs => hs)
      fun found => ?_
    refine Triple.bind (Triple.modify (R := fun _ s => ∃ r₀, I r₀ ∧ Applied map r₀ s)
      fun s hs => ?_) fun _ => Triple.pure true fun _ hs => hs
    obtain ⟨rfl, hs, hlast⟩ := hs
    exact ⟨s, hs, hlast ▸ hnewer, rfl, rfl, hallots⟩

end PeerReconciler

end Tendrilix.Control
