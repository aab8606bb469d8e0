import Tendrilix.Control.Agreement
import Tendrilix.Control.ReadyDevice

/-!
# From one map to the next

The reconciler drives a device of the heap build. Peers that a new map drops are removed first, and
the others are written one at a time, so a peer gets its address only once no peer that comes later
still has it.
-/

namespace Tendrilix.Control

open Attempt Noise
open NetMap (NetworkMap)

variable {K : Crypto} {N BYTES : ℕ}

/-- A device together with the configurations written to it. -/
structure ManagedDevice (K : Crypto) (N BYTES : ℕ) where
  device : Device K N BYTES
  installed : PublicKey → Option PeerConfig
  linked : device.Linked installed

namespace ManagedDevice

open Device (Command CommandCompletion)

variable {m m' : ManagedDevice K N BYTES} {c : Command} {completion : CommandCompletion}

def execute (m : ManagedDevice K N BYTES) (c : Command) :
    Call (CommandCompletion × ManagedDevice K N BYTES) :=
  match h : m.device.handlePeerUpdate c with
  | .error fault => .error fault
  | .ok (completion, device) =>
    .ok (completion, ⟨device, Device.recordOf m.installed c completion,
      Device.handlePeerUpdate_linked m.linked h⟩)

theorem execute_eq_ok (h : m.execute c = .ok (completion, m')) :
    m.device.handlePeerUpdate c = .ok (completion, m'.device) ∧
      m'.installed = Device.recordOf m.installed c completion := by
  unfold execute at h
  split at h
  · cases h
  · rename_i completion' device hrun
    cases h
    exact ⟨hrun, rfl⟩

theorem execute_of_ok {device : Device K N BYTES}
    (h : m.device.handlePeerUpdate c = .ok (completion, device)) :
    ∃ m', m.execute c = .ok (completion, m') ∧ m'.device = device := by
  unfold execute
  split
  · rename_i fault hrun
    rw [h] at hrun
    cases hrun
  · rename_i completion' device' hrun
    rw [h] at hrun
    cases hrun
    exact ⟨_, rfl, rfl⟩

theorem execute_of_error {fault : Fault} (h : m.device.handlePeerUpdate c = .error fault) :
    m.execute c = .error fault := by
  unfold execute
  split
  · rename_i fault' hrun
    rw [h] at hrun
    cases hrun
    rfl
  · rename_i hrun
    rw [h] at hrun
    cases hrun

theorem new_linked {config : Device.Config K} (hpeers : config.peers = []) {resources : Device.Resources}
    {draws : Device.Draws} {clock : ℕ → ℕ} {secrets : ℕ → K.Secret} {d : Device K N BYTES}
    (h : Device.new .alloc config resources draws clock secrets = .ok (.ok d)) :
    d.Linked fun _ => none := by
  have hready := Device.new_ready h
  rw [Device.new, hpeers] at h
  cases h
  refine ⟨hready, fun key => by simp [PeerState.new], fun key config hnone => ?_⟩
  cases hnone

theorem fits (m : ManagedDevice K N BYTES) (ips : PublicKey → Option IpAddr) :
    nodesNeeded (m.device.peers.prefixesAfter ips []) ≤ 65535 := by
  rw [PeerState.prefixesAfter_nil]
  exact m.linked.ready.fits

def start (config : Device.Config K) (hpeers : config.peers = []) (resources : Device.Resources)
    (draws : Device.Draws) (clock : ℕ → ℕ) (secrets : ℕ → K.Secret) :
    Call (Except Device.Error (ManagedDevice K N BYTES)) :=
  match h : Device.new .alloc config resources draws clock secrets with
  | .error fault => .error fault
  | .ok (.error e) => .ok (.error e)
  | .ok (.ok d) => .ok (.ok ⟨d, fun _ => none, new_linked hpeers h⟩)

def write (c : Command) (m : ManagedDevice K N BYTES) :
    Call (Except Device.Error Unit × ManagedDevice K N BYTES) := do
  let (completion, m) ← m.execute c
  return (completion.map fun _ => (), m)

instance : DeviceClient (ManagedDevice K N BYTES) where
  addPeer config := write (.add config)
  updatePeer config := write (.update config)
  removePeer publicKey := write (.remove publicKey)
  getPeer publicKey m := do
    let (completion, m) ← m.execute (.get publicKey)
    return (completion.bind fun
      | .peerInfo info => .ok info
      | _ => .error .io, m)
  listPeers m := do
    let (completion, m) ← m.execute .list
    return (completion.bind fun
      | .peerKeys keys => .ok keys
      | _ => .error .io, m)

theorem write_of_ok {device : Device K N BYTES}
    (h : m.device.handlePeerUpdate c = .ok (completion, device)) :
    ∃ m', write c m = .ok (completion.map fun _ => (), m') ∧ m'.device = device := by
  obtain ⟨m', hexecute, hdevice⟩ := execute_of_ok h
  exact ⟨m', by rw [write, hexecute]; rfl, hdevice⟩

theorem write_of_error {fault : Fault} (h : m.device.handlePeerUpdate c = .error fault) :
    write c m = .error fault := by
  rw [write, execute_of_error h]
  rfl

theorem write_installed {r : Except Device.Error Unit} (h : write c m = .ok (r, m')) :
    (r = .ok () ∧ m'.installed = Device.record m.installed c) ∨
      (∃ e, r = .error e) ∧ m'.installed = m.installed := by
  obtain ⟨⟨completion, m₁⟩, hexecute, h⟩ := bind_ok_iff.mp h
  cases h
  have hinstalled := (execute_eq_ok hexecute).2
  cases completion with
  | ok output => exact .inl ⟨rfl, hinstalled⟩
  | error e => exact .inr ⟨⟨e, rfl⟩, hinstalled⟩

theorem execute_query_installed (hc : Device.record m.installed c = m.installed)
    (h : m.execute c = .ok (completion, m')) : m'.installed = m.installed := by
  rw [(execute_eq_ok h).2]
  cases completion with
  | ok output => exact hc
  | error e => rfl

theorem installed_ledger : Ledger (installed : ManagedDevice K N BYTES → _) := by
  have hok : ∀ {c : Command} {m m' : ManagedDevice K N BYTES}, write c m = .ok (.ok (), m') →
      m'.installed = Device.record m.installed c := by
    intro c m m' h
    rcases write_installed h with ⟨-, h⟩ | ⟨⟨e, he⟩, -⟩
    · exact h
    · cases he
  have herror : ∀ {c : Command} {m m' : ManagedDevice K N BYTES} {e : Device.Error},
      write c m = .ok (.error e, m') → m'.installed = m.installed := by
    intro c m m' e h
    rcases write_installed h with ⟨he, -⟩ | ⟨-, h⟩
    · cases he
    · exact h
  exact
    { add_ok := fun config m m' h => hok h
      add_error := fun config m e m' h => herror h
      update_ok := fun config m m' h => hok h
      update_error := fun config m e m' h => herror h
      remove_ok := fun publicKey m m' h => hok h
      remove_error := fun publicKey m e m' h => herror h
      get := by
        intro key m r m' h
        obtain ⟨⟨completion, m₁⟩, hexecute, h⟩ := bind_ok_iff.mp h
        cases h
        exact execute_query_installed rfl hexecute
      list := by
        intro m r m' h
        obtain ⟨⟨completion, m₁⟩, hexecute, h⟩ := bind_ok_iff.mp h
        cases h
        exact execute_query_installed rfl hexecute
      list_ok := by
        intro m keys m' h key
        obtain ⟨⟨completion, m₁⟩, hexecute, h⟩ := bind_ok_iff.mp h
        have hkeys : Except.ok (.peerKeys m.device.peers.peerKeys) = completion :=
          congrArg Prod.fst (Except.ok.inj (execute_eq_ok hexecute).1)
        subst hkeys
        cases h
        exact m.linked.keys key }

end ManagedDevice

namespace PeerReconciler

open ManagedDevice

variable {b : Build} {Known : PeerConfig → Prop} {r r' : PeerReconciler (ManagedDevice K N BYTES)}

/-! ### The tables of the heap build always have room -/

section Room

variable {C : Type} {s : PeerReconciler C}

theorem insertFingerprint_alloc (hb : b.profile = .alloc) (key : PublicKey) (f : ℕ) :
    insertFingerprint b key f s = .ok (.ok (),
      { s with appliedConfigFingerprints := s.appliedConfigFingerprints.insert key f }) := by
  rw [insertFingerprint, bind_of_ok (rfl : get s = .ok (.ok s, s)), hb]
  simp [Bounded.tryInsertEntry, Bounded.isFull, Profile.maxPeers]
  rfl

theorem insertHealth_alloc (hb : b.profile = .alloc) (key : PublicKey) (health : PeerHealth) :
    insertHealth b key health s =
      .ok (.ok (), { s with health := s.health.insert key health }) := by
  rw [insertHealth, bind_of_ok (rfl : get s = .ok (.ok s, s)), hb]
  simp [Bounded.tryInsertEntry, Bounded.isFull, Profile.maxPeers]
  rfl

theorem collect_none {α : Type} (items : List α) (context : String) :
    collect none items context = .ok items := by
  simp [collect, Bounded.collect]

theorem trackActivePolicy_alloc [DeviceClient C] (hb : b.profile = .alloc) (key : PublicKey)
    (activePolicy : ℕ) (routes : List RouteKey) (now : ℕ) :
    ∃ s', trackActivePolicy b key activePolicy routes now s = .ok (.ok (), s') ∧
      s'.client = s.client := by
  rw [trackActivePolicy, bind_of_ok (rfl : get s = .ok (.ok s, s))]
  cases s.health.lookup key with
  | some health => exact ⟨_, rfl, rfl⟩
  | none =>
    let health := PeerHealth.newWithJitter activePolicy now (PeerHealth.jitterFrom s.rng.nextU64.1)
    have hinsert := insertHealth_alloc (s := { s with rng := s.rng.nextU64.2 }) hb key
      (health.syncPolicies b.profile activePolicy routes)
    exact ⟨_, hinsert, rfl⟩

theorem callClient_of_ok {α : Type} {op : C → Call (Except Device.Error α × C)} {a : α} {c : C}
    (h : op s.client = .ok (.ok a, c)) : callClient op s = .ok (.ok a, { s with client := c }) := by
  rw [callClient, h]

theorem callClient_of_error {α : Type} {op : C → Call (Except Device.Error α × C)} {e : Device.Error}
    {c : C} (h : op s.client = .ok (.error e, c)) :
    callClient op s = .ok (.error (.device e), { s with client := c }) := by
  rw [callClient, h]

end Room

/-! ### One peer -/

theorem write_spec (hb : b.profile = .alloc) {c : Device.Command} {completion : Device.CommandCompletion}
    {device : Device K N BYTES} (hrun : r.client.device.handlePeerUpdate c = .ok (completion, device))
    (key : PublicKey) (f : ℕ) :
    ((∃ o, completion = .ok o) →
      ∃ r', (do callClient (write c); insertFingerprint b key f : Pass _ Unit) r = .ok (.ok (), r')) ∧
    ∀ r', (do callClient (write c); insertFingerprint b key f : Pass _ Unit) r = .ok (.ok (), r') →
      (∃ o, completion = .ok o) ∧ r'.client.device = device := by
  obtain ⟨m', hwrite, rfl⟩ := write_of_ok hrun
  cases completion with
  | ok output =>
    rw [bind_of_ok (callClient_of_ok hwrite), insertFingerprint_alloc hb]
    refine ⟨fun _ => ⟨_, rfl⟩, fun r' hr' => ?_⟩
    cases hr'
    exact ⟨⟨output, rfl⟩, rfl⟩
  | error e =>
    rw [bind_of_error (callClient_of_error hwrite)]
    exact ⟨fun ⟨o, ho⟩ => (nomatch ho), fun r' hr' => (nomatch hr')⟩

def newIndexes (actual : List PublicKey) (key : PublicKey) : ℕ := if key ∈ actual then 0 else 1

theorem applyConfig_spec (hb : b.profile = .alloc)
    (hinj : ∀ c c', Known c → Known c' → b.fingerprint c = b.fingerprint c' → c = c')
    (hr : Sound b Known installed r) {config : PeerConfig} (hknown : Known config)
    {ip : Option IpAddr} (hconfig : config.allowedIps = ip.toList.map DesiredPeer.hostNet)
    {actual : List PublicKey}
    (hactual : config.publicKey ∈ actual ↔ config.publicKey ∈ r.client.device.peers.peers) :
    (r.client.device.Takes config.publicKey ip →
      (config.publicKey ∉ actual → r.client.device.indexGenerator.remaining ≠ 0) →
      ∃ r', applyConfig b actual config.publicKey config r = .ok (.ok (), r')) ∧
    ∀ r', applyConfig b actual config.publicKey config r = .ok (.ok (), r') →
      r.client.device.Takes config.publicKey ip ∧
      r.client.device.Placed config.publicKey ip r'.client.device ∧
      r'.client.device.indexGenerator.remaining + newIndexes actual config.publicKey =
        r.client.device.indexGenerator.remaining := by
  have hready := r.client.linked.ready
  rw [applyConfig, newIndexes]
  by_cases hmem : config.publicKey ∈ actual
  · simp only [hmem, if_true, not_true, false_implies, true_implies, Nat.add_zero]
    rw [bind_of_ok (rfl : get r = .ok (.ok r, r))]
    by_cases hsame : r.appliedConfigFingerprints.lookup config.publicKey = some (b.fingerprint config)
    · -- The device has the configuration already, and with it the address.
      rw [if_neg (not_not.mpr hsame)]
      obtain ⟨config', hknown', hinstalled, hfingerprint⟩ := hr.fingerprints _ _ hsame
      obtain rfl := hinj _ _ hknown' hknown hfingerprint
      have hplaced := r.client.linked.placed hinstalled hconfig
      refine ⟨fun _ => ⟨r, rfl⟩, fun r' hr' => ?_⟩
      cases hr'
      exact ⟨hplaced.takes hready, hplaced, rfl⟩
    · rw [if_pos hsame]
      obtain ⟨completion, device, hrun, hiff, hplaced⟩ :=
        Device.handlePeerUpdate_update_iff hready hconfig (hactual.mp hmem)
      obtain ⟨hok, hinv⟩ := write_spec hb hrun config.publicKey (b.fingerprint config)
      refine ⟨fun htakes => hok (hiff.mpr htakes), fun r' hr' => ?_⟩
      obtain ⟨hcompletion, rfl⟩ := hinv r' hr'
      obtain ⟨hplace, hindexes⟩ := hplaced hcompletion
      exact ⟨hiff.mp hcompletion, hplace, by rw [hindexes]⟩
  · simp only [hmem, if_false, not_false_iff, true_implies]
    have hnew := fun h => hmem (hactual.mpr h)
    by_cases hindexes : r.client.device.indexGenerator.remaining = 0
    · refine ⟨fun _ hsome => absurd hindexes hsome, fun r' hr' => ?_⟩
      obtain ⟨_, r₁, hcall, -⟩ := bind_eq_ok.mp hr'
      have hfault : DeviceClient.addPeer config r.client = .error .indexesExhausted :=
        write_of_error (Device.handlePeerUpdate_add_exhausted hready.seeded
          (AList.lookup_eq_none.mpr hnew) hindexes)
      rw [callClient, hfault] at hcall
      cases hcall
    · obtain ⟨completion, device, hrun, hiff, hplaced⟩ :=
        Device.handlePeerUpdate_add_iff hready hconfig hnew hindexes
      obtain ⟨hok, hinv⟩ := write_spec hb hrun config.publicKey (b.fingerprint config)
      refine ⟨fun htakes _ => hok (hiff.mpr htakes), fun r' hr' => ?_⟩
      obtain ⟨hcompletion, rfl⟩ := hinv r' hr'
      obtain ⟨hplace, hcount⟩ := hplaced hcompletion
      exact ⟨hiff.mp hcompletion, hplace, hcount⟩

theorem applyPeer_spec (hb : b.profile = .alloc)
    (hinj : ∀ c c', Known c → Known c' → b.fingerprint c = b.fingerprint c' → c = c')
    (hr : Sound b Known installed r) {key : PublicKey} {peer : DesiredPeer}
    (hpeer : peer.Rendered Known key) {ip : Option IpAddr}
    (hips : peer.config.allowedIps = ip.toList.map DesiredPeer.hostNet) {actual : List PublicKey}
    (hactual : key ∈ actual ↔ key ∈ r.client.device.peers.peers) (now : ℕ) :
    (r.client.device.Takes key ip →
      (key ∉ actual → r.client.device.indexGenerator.remaining ≠ 0) →
      ∃ r', applyPeer b actual now ⟨key, peer⟩ r = .ok (.ok (), r')) ∧
    ∀ r', applyPeer b actual now ⟨key, peer⟩ r = .ok (.ok (), r') →
      r.client.device.Takes key ip ∧ r.client.device.Placed key ip r'.client.device ∧
      r'.client.device.indexGenerator.remaining + newIndexes actual key =
        r.client.device.indexGenerator.remaining := by
  have hkey : peer.config.publicKey = key := hpeer.publicKey
  have hknown : Known peer.config := hpeer.known _
  have hspec := applyConfig_spec hb hinj hr hknown hips (by rwa [hkey])
  rw [hkey] at hspec
  have hroutes : routeKeysForPolicies b peer.policies = .ok (peer.policies.map RoutePolicy.routeKey) := by
    rw [routeKeysForPolicies, hb]
    exact collect_none _ _
  have hrest : ∀ s : PeerReconciler (ManagedDevice K N BYTES), ∃ s',
      (do let routes ← ofExcept (routeKeysForPolicies b peer.policies)
          trackActivePolicy b key peer.activePolicyIndex routes now : Pass _ Unit) s =
        .ok (.ok (), s') ∧ s'.client = s.client := by
    intro s
    rw [hroutes, bind_of_ok (rfl : ofExcept (.ok _) s = .ok (.ok _, s))]
    exact trackActivePolicy_alloc hb key _ _ now
  refine ⟨fun htakes hindexes => ?_, fun r' hr' => ?_⟩
  · obtain ⟨r₁, hconfig⟩ := hspec.1 htakes hindexes
    obtain ⟨r₂, htrack, -⟩ := hrest r₁
    exact ⟨r₂, (bind_of_ok hconfig).trans htrack⟩
  · obtain ⟨_, r₁, hconfig, hr'⟩ := bind_eq_ok.mp hr'
    obtain ⟨r₂, htrack, hclient⟩ := hrest r₁
    cases htrack.symm.trans hr'
    rw [hclient]
    exact hspec.2 r₁ hconfig

/-! ### The loop over the peers of a map -/

def InOrder (d : Device K N BYTES) (ips : PublicKey → Option IpAddr) (keys : List PublicKey) : Prop :=
  keys.Pairwise fun key later => ∀ a, ips key = some a → d.peers.hasIp later a = false

theorem InOrder.congr {d d' : Device K N BYTES} {ips : PublicKey → Option IpAddr}
    {keys : List PublicKey}
    (h : ∀ key ∈ keys, ∀ a, d'.peers.hasIp key a = d.peers.hasIp key a) :
    InOrder d' ips keys ↔ InOrder d ips keys := by
  apply List.Pairwise.iff_of_mem
  intro key later _ hlater
  apply forall_congr'
  intro a
  rw [h later hlater]

structure Remaining (b : Build) (Known : PeerConfig → Prop) (ips : PublicKey → Option IpAddr)
    (actual : List PublicKey) (entries : List (Σ _ : PublicKey, DesiredPeer))
    (r : PeerReconciler (ManagedDevice K N BYTES)) : Prop where
  nodup : entries.NodupKeys
  rendered : ∀ e ∈ entries, e.2.Rendered Known e.1
  ownIp : ∀ e ∈ entries, e.2.config.allowedIps = (ips e.1).toList.map DesiredPeer.hostNet
  apart : ∀ k ∈ entries.keys, ∀ l ∈ entries.keys, ∀ a, ips k = some a → ips l = some a → k = l
  sound : Sound b Known installed r
  present : ∀ k ∈ entries.keys, k ∈ actual ↔ k ∈ r.client.device.peers.peers
  done : ∀ k ∈ entries.keys, ∀ a, ips k = some a → ∀ other, other ∉ entries.keys →
    r.client.device.peers.hasIp other a = false

section Remaining

variable {ips : PublicKey → Option IpAddr} {actual : List PublicKey}
  {entries : List (Σ _ : PublicKey, DesiredPeer)} {key : PublicKey} {peer : DesiredPeer}

theorem Remaining.ne_key (h : Remaining b Known ips actual (⟨key, peer⟩ :: entries) r)
    {later : PublicKey} (hlater : later ∈ entries.keys) : later ≠ key := by
  rintro rfl
  exact (List.nodupKeys_cons.mp h.nodup).1 hlater

theorem Remaining.takes_iff (h : Remaining b Known ips actual (⟨key, peer⟩ :: entries) r) :
    r.client.device.Takes key (ips key) ↔
      (∀ later ∈ entries.keys, ∀ a, ips key = some a →
        r.client.device.peers.hasIp later a = false) ∧
      nodesNeeded (r.client.device.peers.prefixesAfter ips [key]) ≤ 65535 := by
  rw [PeerState.prefixesAfter_singleton]
  constructor
  · intro htakes
    exact ⟨fun later hlater a ha => htakes.free a ha later (h.ne_key hlater), htakes.fits⟩
  · intro ⟨hlater, hfits⟩
    refine ⟨fun a ha other hother => ?_, hfits⟩
    by_cases hmem : other ∈ entries.keys
    · exact hlater other hmem a ha
    · exact h.done key (by simp) a ha other (by simp [hother, hmem])

theorem Remaining.next (h : Remaining b Known ips actual (⟨key, peer⟩ :: entries) r)
    (hsound : Sound b Known installed r')
    (hplaced : r.client.device.Placed key (ips key) r'.client.device) :
    Remaining b Known ips actual entries r' where
  nodup := (List.nodupKeys_cons.mp h.nodup).2
  rendered e he := h.rendered e (by simp [he])
  ownIp e he := h.ownIp e (by simp [he])
  apart k hk l hl := h.apart k (by simp [hk]) l (by simp [hl])
  sound := hsound
  present k hk := by
    rw [h.present k (by simp [hk]), hplaced.mem_peers k]
    simp [h.ne_key hk]
  done k hk a ha other hother := by
    by_cases hkey : other = key
    · subst hkey
      rw [Bool.eq_false_iff]
      intro hhas
      have hother := (hplaced.hasIp_self r'.client.linked.ready.tables.routed a).mp hhas
      exact h.ne_key hk (h.apart k (by simp [hk]) other (by simp) a ha hother)
    · rw [hplaced.hasIp_ne hkey]
      exact h.done k (by simp [hk]) a ha other (by simp [hkey, hother])

end Remaining

theorem length_filter_cons (actual : List PublicKey) (key : PublicKey) (peer : DesiredPeer)
    (entries : List (Σ _ : PublicKey, DesiredPeer)) :
    ((List.keys (⟨key, peer⟩ :: entries)).filter (· ∉ actual)).length =
      (entries.keys.filter (· ∉ actual)).length + newIndexes actual key := by
  by_cases hmem : key ∈ actual
  · simp [hmem, newIndexes]
  · simp [hmem, newIndexes]

theorem applyPeers_iff (hb : b.profile = .alloc)
    (hinj : ∀ c c', Known c → Known c' → b.fingerprint c = b.fingerprint c' → c = c')
    {ips : PublicKey → Option IpAddr} {actual : List PublicKey} (now : ℕ)
    {entries : List (Σ _ : PublicKey, DesiredPeer)} (h : Remaining b Known ips actual entries r) :
    (∃ r', forEach entries (applyPeer b actual now) r = .ok (.ok (), r')) ↔
      InOrder r.client.device ips entries.keys ∧
      (entries.keys.filter (· ∉ actual)).length ≤ r.client.device.indexGenerator.remaining ∧
      ∀ done, done <+: entries.keys →
        nodesNeeded (r.client.device.peers.prefixesAfter ips done) ≤ 65535 := by
  induction entries generalizing r with
  | nil =>
    refine ⟨fun _ => ⟨.nil, Nat.zero_le _, fun done hdone => ?_⟩, fun _ => ⟨r, rfl⟩⟩
    rw [List.prefix_nil.mp hdone]
    exact r.client.fits ips
  | cons entry entries ih =>
    obtain ⟨key, peer⟩ := entry
    have hpeer : peer.Rendered Known key := h.rendered ⟨key, peer⟩ (by simp)
    have hspec := applyPeer_spec hb hinj h.sound hpeer (h.ownIp ⟨key, peer⟩ (by simp))
      (h.present key (by simp)) now
    have hafter : ∀ r₁, applyPeer b actual now ⟨key, peer⟩ r = .ok (.ok (), r₁) →
        ((∃ r', forEach entries (applyPeer b actual now) r₁ = .ok (.ok (), r')) ↔
          InOrder r.client.device ips entries.keys ∧
          (entries.keys.filter (· ∉ actual)).length ≤ r₁.client.device.indexGenerator.remaining ∧
          ∀ done, done <+: entries.keys →
            nodesNeeded (r.client.device.peers.prefixesAfter ips (key :: done)) ≤ 65535) := by
      intro r₁ hrun
      obtain ⟨-, hplaced, -⟩ := hspec.2 r₁ hrun
      have hsound := (applyPeer_triple installed_ledger hinj actual now hpeer h.sound r rfl _ _ hrun).1
      refine (ih (h.next hsound hplaced)).trans ?_
      rw [InOrder.congr fun later hlater a => hplaced.hasIp_ne (h.ne_key hlater) a]
      simp only [hplaced.prefixesAfter]
    rw [length_filter_cons]
    constructor
    · intro ⟨r', hrun⟩
      obtain ⟨_, r₁, hfirst, hrest⟩ := bind_eq_ok.mp hrun
      obtain ⟨htakes, -, hindexes⟩ := hspec.2 r₁ hfirst
      obtain ⟨hinOrder, hcount, hroom⟩ := (hafter r₁ hfirst).mp ⟨r', hrest⟩
      refine ⟨List.pairwise_cons.mpr ⟨(h.takes_iff.mp htakes).1, hinOrder⟩, by omega,
        fun done hdone => ?_⟩
      rcases List.prefix_cons_iff.mp hdone with rfl | ⟨later, rfl, hlater⟩
      · exact r.client.fits ips
      · exact hroom later hlater
    · intro ⟨hinOrder, hcount, hroom⟩
      rw [InOrder, List.keys_cons, List.pairwise_cons] at hinOrder
      rw [List.keys_cons] at hroom
      have hfirstFits := hroom [key] (List.prefix_cons_iff.mpr (.inr ⟨[], rfl, List.nil_prefix⟩))
      obtain ⟨r₁, hfirst⟩ := hspec.1 (h.takes_iff.mpr ⟨hinOrder.1, hfirstFits⟩) (by
        intro hmem
        rw [newIndexes, if_neg hmem] at hcount
        omega)
      have hindexes := (hspec.2 r₁ hfirst).2.2
      obtain ⟨r', hrest⟩ := (hafter r₁ hfirst).mpr ⟨hinOrder.2, by omega, fun done hdone =>
        hroom (key :: done) (List.prefix_cons_iff.mpr (.inr ⟨done, rfl, hdone⟩))⟩
      exact ⟨r', (bind_of_ok hfirst).trans hrest⟩

/-! ### Peers that a map drops -/

structure Pruned (gone : PublicKey → Prop) [DecidablePred gone] (d d' : Device K N BYTES) : Prop where
  peers : ∀ key, d'.peers.peerByKey key = if gone key then none else d.peers.peerByKey key
  indexes : d'.indexGenerator = d.indexGenerator

theorem removeVanishedPeers_run (desired : Bounded.Map PublicKey DesiredPeer) (actual : List PublicKey)
    (r : PeerReconciler (ManagedDevice K N BYTES)) :
    ∃ r', removeVanishedPeers actual desired r = .ok (.ok (), r') ∧
      Pruned (fun key => key ∈ actual ∧ key ∉ desired) r.client.device r'.client.device := by
  induction actual generalizing r with
  | nil => exact ⟨r, rfl, fun key => by simp, rfl⟩
  | cons key actual ih =>
    have hfirst : ∃ r₁, removeVanishedPeer desired key r = .ok (.ok (), r₁) ∧
        Pruned (fun k => k = key ∧ k ∉ desired) r.client.device r₁.client.device := by
      rw [removeVanishedPeer]
      by_cases hmem : key ∈ desired
      · rw [if_pos hmem]
        refine ⟨r, rfl, fun k => ?_, rfl⟩
        rw [if_neg (by rintro ⟨rfl, hk⟩; exact hk hmem)]
      · rw [if_neg hmem]
        obtain ⟨m', hwrite, hdevice⟩ := write_of_ok (m := r.client) (c := .remove key) rfl
        refine ⟨_, bind_of_ok (callClient_of_ok hwrite), fun k => ?_, ?_⟩
        · change m'.device.peers.peerByKey k = _
          rw [hdevice]
          refine (Device.peerByKey_removePeerFromState r.client.device.peers key k).trans ?_
          by_cases hk : k = key
          · subst hk
            simp [hmem]
          · simp [hk]
        · change m'.device.indexGenerator = _
          rw [hdevice]
    obtain ⟨r₁, hrun₁, hpruned₁⟩ := hfirst
    obtain ⟨r₂, hrun₂, hpruned₂⟩ := ih r₁
    refine ⟨r₂, (bind_of_ok hrun₁).trans hrun₂, fun k => ?_, ?_⟩
    · rw [hpruned₂.peers, hpruned₁.peers]
      by_cases hk : k = key
      · subst hk
        by_cases hwanted : k ∈ desired
        · simp [hwanted]
        · simp [hwanted]
      · simp [hk]
    · rw [hpruned₂.indexes, hpruned₁.indexes]

/-! ### The desired peers of a map -/

theorem dedupe_ne_nil {policies deduped : List RoutePolicy} (h : policies ≠ [] ∨ deduped ≠ []) :
    dedupe policies deduped ≠ [] := by
  induction policies generalizing deduped with
  | nil => simpa [dedupe] using h
  | cons policy policies ih =>
    rw [dedupe]
    split
    · rename_i i hfound
      apply ih
      right
      rintro hnil
      rw [List.findIdx?_eq_some_iff_getElem] at hfound
      obtain ⟨hi, -⟩ := hfound
      have hlength := congrArg List.length hnil
      simp at hlength
      simp [hlength] at hi
    · exact ih (.inr (by simp))

theorem routePoliciesForPeer_alloc (hb : b.profile = .alloc) (map : NetworkMap) (peer : NetMap.Peer) :
    ∃ policies, routePoliciesForPeer b map peer = .ok policies ∧ policies ≠ [] := by
  have hmax : b.profile.maxRoutes = none := by
    rw [hb]
    rfl
  rw [routePoliciesForPeer, hmax, collect_none, ok_bind, dedupeAndSortPolicies, hmax, collect_none,
    ok_bind]
  refine ⟨_, rfl, fun hnil => ?_⟩
  have hperm := b.sort_perm (dedupe (if (peer.routes.filterMap (routePolicy map peer)).isEmpty then
    [.direct none 0] else peer.routes.filterMap (routePolicy map peer)) [])
  rw [hnil] at hperm
  refine dedupe_ne_nil (.inl ?_) hperm.nil_eq.symm
  split
  · simp
  · rename_i hsome
    simpa using hsome

theorem desiredPeersLoop_alloc (hb : b.profile = .alloc) (map : NetworkMap) (peers : List NetMap.Peer)
    (desired : Bounded.Map PublicKey DesiredPeer) (rng : Rng) :
    ∃ desired' rng', desiredPeersLoop b map peers desired rng = (.ok desired', rng') ∧
      ∀ key, key ∈ desired' ↔ key ∈ desired ∨ key ∈ peers.map (·.publicKey) := by
  induction peers generalizing desired rng with
  | nil => exact ⟨desired, rng, rfl, fun key => by simp⟩
  | cons peer peers ih =>
    have hips : collect b.profile.maxAllowedIpsPerPeer peer.tunnelIp.toList "allowed IPs" =
        .ok peer.tunnelIp.toList := by
      rw [hb]
      exact collect_none _ _
    obtain ⟨policies, hpolicies, hsome⟩ := routePoliciesForPeer_alloc hb map peer
    have hinsert : ∀ p, Bounded.tryInsertEntry b.profile.maxPeers desired (peer.publicKey : PublicKey) p =
        some (desired.insert (peer.publicKey : PublicKey) p) := by
      intro p
      rw [hb]
      simp [Bounded.tryInsertEntry, Bounded.isFull, Profile.maxPeers]
    rw [desiredPeersLoop, hips, hpolicies]
    dsimp only
    rw [if_neg (by simpa using hsome), hinsert]
    obtain ⟨desired', rng', hrun, hkeys⟩ := ih (desired.insert peer.publicKey
      (desiredPeer peer peer.tunnelIp.toList policies (initialPolicyIndex policies rng).1))
      (initialPolicyIndex policies rng).2
    refine ⟨desired', rng', hrun, fun key => ?_⟩
    rw [hkeys, AList.mem_insert, List.map_cons, List.mem_cons]
    tauto

theorem keys_carryForwardLoop {C : Type} (keys : List PublicKey)
    (desired : Bounded.Map PublicKey DesiredPeer) (s : PeerReconciler C) :
    (carryForwardLoop b keys desired s).1.keys = desired.keys := by
  induction keys generalizing desired s with
  | nil => rfl
  | cons key keys ih =>
    rw [carryForwardLoop]
    split
    · exact ih desired s
    · dsimp only
      rw [ih, AList.keys_replace]

/-! ### A whole map -/

theorem renders_alloc (hb : b.profile = .alloc) {map : NetworkMap} {config : PeerConfig}
    (h : Renders b map config) :
    ∃ peer ∈ map.peers, config.publicKey = peer.publicKey ∧
      config.allowedIps = peer.tunnelIp.toList.map DesiredPeer.hostNet := by
  obtain ⟨peer, hpeer, allowedIps, policies, i, hips, -, rfl⟩ := h
  rw [hb] at hips
  obtain rfl := Except.ok.inj ((collect_none _ _).symm.trans hips)
  exact ⟨peer, hpeer, rfl, rfl⟩

theorem reconcileNetworkMap_eq (hb : b.profile = .alloc) {map : NetworkMap}
    (hvalid : map.Valid) (hnewer : r.isStale map = false) (now : ℕ) (order : List PublicKey) :
    ∃ desired r₁ r₂, AllRendered (Renders b map) desired ∧
      desired.keys.Perm (map.peers.map (·.publicKey)) ∧
      (order.Perm (map.peers.map (·.publicKey)) → desired.keys = order) ∧
      r₁ = { r with rng := r₁.rng, health := r₁.health } ∧
      removeVanishedPeers r.client.device.peers.peerKeys desired r₁ = .ok (.ok (), r₂) ∧
      ((∃ r', reconcileNetworkMap b map now order r = .ok (.ok true, r')) ↔
        ∃ r', forEach desired.entries (applyPeer b r.client.device.peers.peerKeys now) r₂ =
          .ok (.ok (), r')) := by
  obtain ⟨d₀, rng, hloop, hkeys⟩ := desiredPeersLoop_alloc hb map map.peers ∅ r.rng
  have hrendered : AllRendered (Renders b map) (Bounded.reorder order d₀) := by
    intro key peer hlookup
    rw [Bounded.lookup_reorder] at hlookup
    exact desiredPeersLoop_rendered (fun _ h => h) (List.Subset.refl _) (fun _ _ h => by simp at h)
      hloop key peer hlookup
  obtain ⟨hcarried, -, health, hshape⟩ := carryForwardLoop_spec (b := b)
    (Bounded.reorder order d₀).keys hrendered { r with rng := rng }
  have hcarriedKeys := keys_carryForwardLoop (b := b) (Bounded.reorder order d₀).keys
    (Bounded.reorder order d₀) { r with rng := rng }
  have hcarry : carryForwardActivePolicies b (Bounded.reorder order d₀) { r with rng := rng } =
      .ok (.ok (carryForwardLoop b (Bounded.reorder order d₀).keys (Bounded.reorder order d₀)
        { r with rng := rng }).1, { r with rng := rng, health := health }) := by
    rw [carryForwardActivePolicies, ← hshape]
  generalize (carryForwardLoop b (Bounded.reorder order d₀).keys (Bounded.reorder order d₀)
    { r with rng := rng }).1 = desired at hcarried hcarriedKeys hcarry
  obtain ⟨r₂, hremove, -⟩ := removeVanishedPeers_run desired r.client.device.peers.peerKeys
    { r with rng := rng, health := health }
  have hperm₀ : d₀.keys.Perm (map.peers.map (·.publicKey)) := by
    rw [List.perm_ext_iff_of_nodup d₀.keys_nodup (List.pairwise_map.mpr hvalid.publicKeys)]
    intro key
    rw [← AList.mem_keys, hkeys]
    simp
  have hlist : callClient DeviceClient.listPeers { r with rng := rng, health := health } =
      .ok (.ok r.client.device.peers.peerKeys, { r with rng := rng, health := health }) :=
    callClient_of_ok rfl
  have hdirectories : directoryServersFromMap b map = .ok (map.peers.filter (·.isDirectory)) := by
    rw [directoryServersFromMap, hb]
    exact collect_none _ _
  have hrun : reconcileNetworkMap b map now order r = (do
      forEach desired.entries (applyPeer b r.client.device.peers.peerKeys now)
      let directories ← ofExcept (directoryServersFromMap b map)
      modify fun r => { r with
        directories := directories
        desired := desired
        lastAppliedMapUpdatedAt := some map.updatedAt }
      pure true : Pass _ Bool) r₂ := by
    rw [reconcileNetworkMap, bind_of_ok (rfl : get r = .ok (.ok r, r)), if_neg (by simp [hnewer]),
      desiredPeersFromMap, hloop]
    refine (bind_of_ok (rfl : modify _ r = .ok (.ok (), { r with rng := rng }))).trans ?_
    refine (bind_of_ok (rfl : ofExcept (.ok d₀) _ = .ok (.ok d₀, _))).trans ?_
    rw [bind_of_ok hcarry, bind_of_ok hlist, bind_of_ok hremove]
    rfl
  refine ⟨desired, _, r₂, hcarried, ?_, fun hperm => ?_, rfl, hremove, ?_⟩
  · rw [hcarriedKeys]
    exact (Bounded.keys_reorder_perm order d₀).trans hperm₀
  · rw [hcarriedKeys, Bounded.keys_reorder (hperm.trans hperm₀.symm)]
  · rw [hrun]
    constructor
    · intro ⟨r', hr'⟩
      obtain ⟨_, r₃, hpeers, -⟩ := bind_eq_ok.mp hr'
      exact ⟨r₃, hpeers⟩
    · intro ⟨r', hr'⟩
      rw [bind_of_ok hr', hdirectories]
      exact ⟨_, rfl⟩

/-- The prefixes of the map's peers while those in `moved` have their new address and the others have
what the device has for them. -/
def prefixesWhile (s : PeerState K) (map : NetworkMap) (moved : List PublicKey) : Finset NetKey :=
  (map.peers.flatMap fun p => if (p.publicKey : PublicKey) ∈ moved then hostNets p.tunnelIp
    else (s.peerByKey p.publicKey).elim [] (·.allowedIps.prefixes)).toFinset

theorem mem_prefixesWhile {s : PeerState K} {map : NetworkMap} {moved : List PublicKey} {n : NetKey} :
    n ∈ prefixesWhile s map moved ↔ ∃ p ∈ map.peers,
      ((p.publicKey : PublicKey) ∈ moved ∧ n ∈ hostNets p.tunnelIp) ∨
      ((p.publicKey : PublicKey) ∉ moved ∧
        ∃ peer, s.peerByKey p.publicKey = some peer ∧ n ∈ peer.allowedIps.prefixes) := by
  rw [prefixesWhile, List.mem_toFinset, List.mem_flatMap]
  refine exists_congr fun p => and_congr_right fun _ => ?_
  by_cases hmoved : (p.publicKey : PublicKey) ∈ moved
  · simp [hmoved]
  · cases hpeer : s.peerByKey p.publicKey with
    | none => simp [hmoved]
    | some peer => simp [hmoved]

theorem prefixesWhile_congr {s : PeerState K} {map : NetworkMap} {moved moved' : List PublicKey}
    (h : ∀ p ∈ map.peers, (p.publicKey : PublicKey) ∈ moved ↔ (p.publicKey : PublicKey) ∈ moved') :
    prefixesWhile s map moved = prefixesWhile s map moved' := by
  ext n
  rw [mem_prefixesWhile, mem_prefixesWhile]
  refine exists_congr fun p => and_congr_right fun hp => ?_
  rw [h p hp]

theorem prefixesWhile_fits {s : PeerState K} {map : NetworkMap} (hlength : map.peers.length ≤ 32767)
    (hone : ∀ p ∈ map.peers, ∀ peer, s.peerByKey p.publicKey = some peer →
      peer.allowedIps.prefixes.length ≤ 1) (moved : List PublicKey) :
    nodesNeeded (prefixesWhile s map moved) ≤ 65535 := by
  apply nodesNeeded_le_of_length
  rw [List.length_flatMap]
  refine (List.sum_le_card_nsmul _ 1 fun length hmem => ?_).trans (by simpa using hlength)
  obtain ⟨p, hp, rfl⟩ := List.mem_map.mp hmem
  split
  · exact length_hostNets_le p.tunnelIp
  · cases hpeer : s.peerByKey p.publicKey with
    | none => exact Nat.zero_le 1
    | some peer => exact hone p hp peer hpeer

theorem prefixesAfter_pruned {d d' : Device K N BYTES} {map : NetworkMap}
    {desired : Bounded.Map PublicKey DesiredPeer} {done : List PublicKey}
    (hpruned : Pruned (fun key => key ∈ d.peers.peerKeys ∧ key ∉ desired) d d') (hvalid : map.Valid)
    (hkeys : desired.keys.Perm (map.peers.map fun p => (p.publicKey : PublicKey)))
    (hdone : done ⊆ desired.keys) :
    d'.peers.prefixesAfter map.tunnelIpOf done = prefixesWhile d.peers map done := by
  ext n
  rw [PeerState.mem_prefixesAfter, mem_prefixesWhile]
  constructor
  · rintro (⟨key, hkey, hn⟩ | ⟨key, peer, hkey, hpeer, hn⟩)
    · obtain ⟨p, hp, rfl⟩ := List.mem_map.mp (hkeys.mem_iff.mp (hdone hkey))
      rw [hvalid.tunnelIpOf_eq hp] at hn
      exact ⟨p, hp, .inl ⟨hkey, hn⟩⟩
    · rw [hpruned.peers] at hpeer
      split at hpeer
      · cases hpeer
      · rename_i hkept
        have hmem : key ∈ desired := by
          by_contra hgone
          exact hkept ⟨Bounded.mem_of_lookup hpeer, hgone⟩
        obtain ⟨p, hp, rfl⟩ := List.mem_map.mp (hkeys.mem_iff.mp hmem)
        exact ⟨p, hp, .inr ⟨hkey, peer, hpeer, hn⟩⟩
  · rintro ⟨p, hp, ⟨hkey, hn⟩ | ⟨hkey, peer, hpeer, hn⟩⟩
    · rw [← hvalid.tunnelIpOf_eq hp] at hn
      exact .inl ⟨_, hkey, hn⟩
    · have hmem : (p.publicKey : PublicKey) ∈ desired := hkeys.mem_iff.mpr (List.mem_map_of_mem hp)
      refine .inr ⟨_, peer, hkey, ?_, hn⟩
      rw [hpruned.peers, if_neg fun hgone => hgone.2 hmem]
      exact hpeer

theorem reconcileNetworkMap_iff (hb : b.profile = .alloc)
    (hinj : ∀ c c', Known c → Known c' → b.fingerprint c = b.fingerprint c' → c = c')
    (hr : Sound b Known installed r) {map : NetworkMap}
    (hknown : ∀ config, Renders b map config → Known config) (hvalid : map.Valid)
    (hnewer : r.isStale map = false) (now : ℕ) (order : List PublicKey) :
    ∃ keys, keys.Perm (map.peers.map fun p => (p.publicKey : PublicKey)) ∧
      (order.Perm (map.peers.map fun p => (p.publicKey : PublicKey)) → keys = order) ∧
      ((∃ r', reconcileNetworkMap b map now order r = .ok (.ok true, r')) ↔
        InOrder r.client.device map.tunnelIpOf keys ∧
        (keys.filter (· ∉ r.client.device.peers.peerKeys)).length ≤
          r.client.device.indexGenerator.remaining ∧
        ∀ done, done <+: keys →
          nodesNeeded (prefixesWhile r.client.device.peers map done) ≤ 65535) := by
  obtain ⟨desired, r₁, r₂, hrendered, hperm, horder, hr₁, hremove, hiff⟩ :=
    reconcileNetworkMap_eq hb hvalid hnewer now order
  have hsame : r₁.client = r.client := by rw [hr₁]
  obtain ⟨r₂', hremove', hpruned⟩ := removeVanishedPeers_run desired r.client.device.peers.peerKeys r₁
  cases hremove'.symm.trans hremove
  rw [hsame] at hpruned
  have hsound₁ : Sound b Known installed r₁ := hr.of_eq (by rw [hsame]) (by rw [hr₁]) (by rw [hr₁])
  have hsound₂ := (removeVanishedPeers_triple installed_ledger _ desired r₁
    ⟨hsound₁, fun key => by rw [hsame, ← r.client.linked.keys]; rfl⟩ _ _ hremove).1
  have hpeerOf : ∀ key ∈ desired.keys, ∃ peer ∈ map.peers, peer.publicKey = key := by
    intro key hkey
    exact List.mem_map.mp (hperm.mem_iff.mp hkey)
  have hkept : ∀ key ∈ desired.keys,
      r₂.client.device.peers.peerByKey key = r.client.device.peers.peerByKey key := by
    intro key hkey
    rw [hpruned.peers, if_neg]
    exact fun hgone => hgone.2 hkey
  refine ⟨desired.keys, hperm, horder, hiff.trans ?_⟩
  have hprefixes : ∀ done, done <+: desired.keys →
      r₂.client.device.peers.prefixesAfter map.tunnelIpOf done =
        prefixesWhile r.client.device.peers map done := fun done hdone =>
    prefixesAfter_pruned hpruned hvalid hperm hdone.subset
  rw [← InOrder.congr fun key hkey => PeerState.hasIp_congr (hkept key hkey), ← hpruned.indexes,
    ← forall₂_congr fun done hdone => iff_of_eq (congrArg (nodesNeeded · ≤ 65535) (hprefixes done hdone))]
  apply applyPeers_iff hb hinj now
  exact
    { nodup := desired.nodupKeys
      rendered := fun e he => (hrendered e.1 e.2 (AList.mem_lookup_iff.mpr he)).mono hknown
      ownIp := fun e he => by
        have hpeer := hrendered e.1 e.2 (AList.mem_lookup_iff.mpr he)
        obtain ⟨peer, hmem, hkey, hips⟩ := renders_alloc hb (hpeer.known e.2.activePolicyIndex)
        have hkey' : peer.publicKey = e.1 := hkey.symm.trans hpeer.publicKey
        rw [← hkey', hvalid.tunnelIpOf_eq hmem]
        exact hips
      apart := fun k hk l hl a hka hla => by
        obtain ⟨p, hp, rfl⟩ := hpeerOf k hk
        obtain ⟨q, hq, rfl⟩ := hpeerOf l hl
        rw [hvalid.tunnelIpOf_eq hp] at hka
        rw [hvalid.tunnelIpOf_eq hq] at hla
        rw [hvalid.eq_of_tunnelIp hp hq hka hla]
      sound := hsound₂
      present := fun k hk => (Bounded.mem_congr (hkept k hk)).symm
      done := fun k hk a ha other hother => by
        rw [PeerState.hasIp, hpruned.peers]
        split
        · rfl
        · rename_i hactual
          have hnone : other ∉ r.client.device.peers.peers := fun hmem => hactual ⟨hmem, hother⟩
          rw [PeerState.peerByKey, AList.lookup_eq_none.mpr hnone]
          rfl }

theorem run_ledger_sound (hinj : ∀ c c', Known c → Known c' → b.fingerprint c = b.fingerprint c' → c = c')
    {C : Type} [DeviceClient C] {installed : C → PublicKey → Option PeerConfig}
    (hledger : Ledger installed) {client : C} {directories : List NetMap.Peer} {rng : Rng}
    {requests : List Request} {os : List (Except ReconcileError Bool)} {s : PeerReconciler C}
    (hknown : ∀ map ∈ mapsOf requests, ∀ config, Renders b map config → Known config)
    (hrun : Machine.run (step b) (new client directories rng) requests = .ok (os, s)) :
    Sound b Known installed s := by
  have hstart : Sound b Known installed (new client directories rng) :=
    ⟨fun key f hf => by simp [new] at hf, fun key peer hpeer => by simp [new] at hpeer⟩
  refine Machine.run_invariant (fun s request o s' hmem hs hstep => ?_) hrun hstart
  refine (step_sound hledger hinj (fun map hmap => hknown map ?_) hs hstep).1
  simp only [mapsOf, List.mem_filterMap, List.mem_singleton] at hmap ⊢
  obtain ⟨_, rfl, hmap⟩ := hmap
  exact ⟨_, hmem, hmap⟩

/-- A newer map can be applied, whatever the order in which its peers come up, if and only if none of
them takes an address that the device has for another, there are indexes for the new ones, and the
tries have room for the addresses whichever of the peers have their new one. -/
theorem run_applies_iff {client : ManagedDevice K N BYTES} {directories : List NetMap.Peer} {rng : Rng}
    {requests : List Request} {os : List (Except ReconcileError Bool)} {map : NetworkMap} (now : ℕ)
    (hb : b.profile = .alloc)
    (hfingerprint : Set.InjOn b.fingerprint
      {config | ∃ m ∈ map :: mapsOf requests, Renders b m config})
    (hrun : Machine.run (step b) (new client directories rng) requests = .ok (os, r))
    (hnewer : ∀ updatedAt, r.lastAppliedMapUpdatedAt = some updatedAt → updatedAt < map.updatedAt)
    (hvalid : map.Valid) :
    (∀ order, ∃ r', step b r (.networkMap map now order) = .ok (.ok true, r')) ↔
      (∀ p ∈ map.peers, ∀ q ∈ map.peers, p ≠ q → ∀ ip, p.tunnelIp = some ip →
        r.client.device.peers.hasIp q.publicKey ip = false) ∧
      (map.peers.filter (·.publicKey ∉ r.client.device.peers.peerKeys)).length ≤
        r.client.device.indexGenerator.remaining ∧
      ∀ moved, nodesNeeded (prefixesWhile r.client.device.peers map moved) ≤ 65535 := by
  let Known : PeerConfig → Prop := fun config => ∃ m ∈ map :: mapsOf requests, Renders b m config
  have hinj : ∀ c c', Known c → Known c' → b.fingerprint c = b.fingerprint c' → c = c' :=
    fun c c' hc hc' h => hfingerprint hc hc' h
  have hsound : Sound b Known installed r := run_ledger_sound hinj installed_ledger
    (fun m hm config hconfig => ⟨m, by simp [hm], hconfig⟩) hrun
  have hstale : r.isStale map = false := by
    rw [isStale]
    cases hlast : r.lastAppliedMapUpdatedAt with
    | none => rfl
    | some updatedAt => simpa using hnewer updatedAt hlast
  have hiff := reconcileNetworkMap_iff hb hinj hsound
    (fun config hconfig => ⟨map, by simp, hconfig⟩) hvalid hstale now
  let mapKeys := map.peers.map fun p => (p.publicKey : PublicKey)
  have hcount : ∀ keys : List PublicKey, keys.Perm mapKeys →
      (keys.filter (· ∉ r.client.device.peers.peerKeys)).length =
        (map.peers.filter (·.publicKey ∉ r.client.device.peers.peerKeys)).length := by
    intro keys hperm
    rw [(hperm.filter _).length_eq, List.filter_map, List.length_map]
    rfl
  have hmapKeys : ∀ p ∈ map.peers, (p.publicKey : PublicKey) ∈ mapKeys := fun p hp =>
    List.mem_map_of_mem hp
  constructor
  · intro hall
    refine ⟨fun p hp q hq hne ip hip => ?_, ?_, fun moved => ?_⟩
    · -- In an order that starts with the two, the first comes while the second has its old address.
      have hkeys : (p.publicKey : PublicKey) ≠ q.publicKey := fun h =>
        hne (hvalid.eq_of_publicKey hp hq h)
      have hq' : (q.publicKey : PublicKey) ∈ mapKeys.erase p.publicKey :=
        (List.mem_erase_of_ne hkeys.symm).mpr (hmapKeys q hq)
      have hperm := ((List.perm_cons_erase hq').symm.cons (p.publicKey : PublicKey)).trans
        (List.perm_cons_erase (hmapKeys p hp)).symm
      obtain ⟨keys, -, horder, happlies⟩ := hiff ((p.publicKey : PublicKey) :: q.publicKey ::
        (mapKeys.erase p.publicKey).erase q.publicKey)
      have hinOrder := (happlies.mp (hall _)).1
      rw [horder hperm] at hinOrder
      exact (List.pairwise_cons.mp hinOrder).1 _ (by simp) ip (by rw [hvalid.tunnelIpOf_eq hp, hip])
    · obtain ⟨keys, hperm, -, happlies⟩ := hiff []
      rw [← hcount keys hperm]
      exact (happlies.mp (hall [])).2.1
    · -- In an order that starts with `moved`, the others still have their old addresses after these.
      have hperm := List.filter_append_perm (· ∈ moved) mapKeys
      obtain ⟨keys, -, horder, happlies⟩ := hiff _
      have hroom := (happlies.mp (hall _)).2.2 (mapKeys.filter (· ∈ moved)) (by
        rw [horder hperm]
        exact List.prefix_append _ _)
      have hmoved : ∀ p ∈ map.peers, (p.publicKey : PublicKey) ∈ mapKeys.filter (· ∈ moved) ↔
          (p.publicKey : PublicKey) ∈ moved := by
        intro p hp
        simp [hmapKeys p hp]
      rwa [prefixesWhile_congr hmoved] at hroom
  · intro ⟨hfree, hindexes, hroom⟩ order
    obtain ⟨keys, hperm, -, happlies⟩ := hiff order
    refine happlies.mpr ⟨?_, by rw [hcount keys hperm]; exact hindexes, fun done _ => hroom done⟩
    have hnodup : keys.Nodup := hperm.nodup_iff.mpr (List.pairwise_map.mpr hvalid.publicKeys)
    refine hnodup.imp_of_mem fun {k l} hk hl hne ip hip => ?_
    obtain ⟨p, hp, rfl⟩ := List.mem_map.mp (hperm.mem_iff.mp hk)
    obtain ⟨q, hq, rfl⟩ := List.mem_map.mp (hperm.mem_iff.mp hl)
    rw [hvalid.tunnelIpOf_eq hp] at hip
    exact hfree p hp q hq (fun h => hne (by rw [h])) ip hip

end PeerReconciler

end Tendrilix.Control

/-! ### Two peers that change places -/

namespace Tendrilix.Sample

open Noise Control PeerReconciler

def managed : Call (Except Device.Error (ManagedDevice Crypto.sample 8 8192)) :=
  ManagedDevice.start (deviceConfig 1 []) rfl resources draws clock secrets

def mapPeer (n host : ℕ) : NetMap.Peer where
  id := Int64.ofNat n
  publicKey := (key n).toKeyBytes
  tunnelIp := some (.v4 (BitVec.ofNat 32 (0x0a000200 + host)))
  isDirectory := false
  routes := [⟨0, .direct (some (addr n))⟩]

def mapAt (seconds : ℕ) (h : seconds < 1000) (peers : List NetMap.Peer) : NetMap.NetworkMap where
  updatedAt := instantAt seconds h
  peers := peers

def mapBefore : NetMap.NetworkMap := mapAt 1 (by decide) [mapPeer 2 2, mapPeer 3 3]

def mapSwapped : NetMap.NetworkMap := mapAt 2 (by decide) [mapPeer 2 3, mapPeer 3 2]

def mapReplaced : NetMap.NetworkMap := mapAt 2 (by decide) [mapPeer 4 3, mapPeer 2 2]

def appliedAnd (p : PeerReconciler (ManagedDevice Crypto.sample 8 8192) → Bool) : Bool :=
  okAnd (okAnd fun client =>
    okAnd (fun q => decide (q.1 = [.ok true]) && p q.2)
      (Machine.run (step build) (new client [] ⟨fun _ => 0, 0⟩) [.networkMap mapBefore 0 []])) managed

theorem exists_of_appliedAnd {p : PeerReconciler (ManagedDevice Crypto.sample 8 8192) → Bool}
    (h : appliedAnd p = true) :
    ∃ client r, managed = .ok (.ok client) ∧
      Machine.run (step build) (new client [] ⟨fun _ => 0, 0⟩) [.networkMap mapBefore 0 []] =
        .ok ([.ok true], r) ∧ p r = true := by
  rw [appliedAnd] at h
  obtain ⟨e, hmanaged, hstarted⟩ := exists_of_okAnd h
  obtain ⟨client, rfl, hran⟩ := exists_of_okAnd hstarted
  obtain ⟨⟨os, r⟩, hrun, happlied⟩ := exists_of_okAnd hran
  rw [Bool.and_eq_true, decide_eq_true_eq] at happlied
  dsimp only at happlied
  obtain ⟨rfl, hp⟩ := happlied
  exact ⟨client, r, hmanaged, hrun, hp⟩

theorem swapped_addresses_refused :
    ∃ client r r₁ r₂, managed = .ok (.ok client) ∧
      Machine.run (step build) (new client [] ⟨fun _ => 0, 0⟩) [.networkMap mapBefore 0 []] =
        .ok ([.ok true], r) ∧
      mapBefore.updatedAt < mapSwapped.updatedAt ∧ mapSwapped.Valid ∧
      step build r (.networkMap mapSwapped 0 [key 2, key 3]) =
        .ok (.error (.device .allowedIPOverlap), r₁) ∧
      step build r (.networkMap mapSwapped 0 [key 3, key 2]) =
        .ok (.error (.device .allowedIPOverlap), r₂) := by
  have hrun : appliedAnd (fun r =>
      okAnd (fun q => decide (q.1 = .error (.device .allowedIPOverlap)))
        (step build r (.networkMap mapSwapped 0 [key 2, key 3])) &&
      okAnd (fun q => decide (q.1 = .error (.device .allowedIPOverlap)))
        (step build r (.networkMap mapSwapped 0 [key 3, key 2]))) = true := by decide +kernel
  obtain ⟨client, r, hmanaged, hrun, hrefused⟩ := exists_of_appliedAnd hrun
  rw [Bool.and_eq_true] at hrefused
  obtain ⟨⟨o₁, r₁⟩, hstep₁, ho₁⟩ := exists_of_okAnd hrefused.1
  obtain ⟨⟨o₂, r₂⟩, hstep₂, ho₂⟩ := exists_of_okAnd hrefused.2
  obtain rfl := of_decide_eq_true ho₁
  obtain rfl := of_decide_eq_true ho₂
  exact ⟨client, r, r₁, r₂, hmanaged, hrun, by decide +kernel, ⟨by decide, by decide +kernel, by decide⟩,
    hstep₁, hstep₂⟩

def mapPeerConfigs (n host : ℕ) : List PeerConfig :=
  [some (addr n), none].map fun endpoint =>
    ⟨(mapPeer n host).publicKey, endpoint,
      [DesiredPeer.hostNet (.v4 (BitVec.ofNat 32 (0x0a000200 + host)))], none, none⟩

theorem renders_mapPeer {map : NetMap.NetworkMap} {config : PeerConfig} {places : List (ℕ × ℕ)}
    (hpeers : map.peers = places.map fun place => mapPeer place.1 place.2)
    (h : Renders build map config) : config ∈ places.flatMap fun place => mapPeerConfigs place.1 place.2 := by
  obtain ⟨peer, hpeer, allowedIps, policies, i, hips, hpolicies, rfl⟩ := h
  rw [hpeers] at hpeer
  obtain ⟨⟨n, host⟩, hplace, rfl⟩ := List.mem_map.mp hpeer
  rw [List.mem_flatMap]
  refine ⟨(n, host), hplace, ?_⟩
  cases hips
  have hpolicies' : routePoliciesForPeer build map (mapPeer n host) = .ok [.direct (some (addr n)) 0] := by
    rfl
  cases hpolicies'.symm.trans hpolicies
  match i with
  | 0 => exact List.mem_cons_self
  | i + 1 => exact List.mem_cons_of_mem _ List.mem_cons_self

theorem run_applies_iff_replaced :
    ∃ client r, managed = .ok (.ok client) ∧
      Machine.run (step build) (new client [] ⟨fun _ => 0, 0⟩) [.networkMap mapBefore 0 []] =
        .ok ([.ok true], r) ∧
      ∀ order, ∃ r', step build r (.networkMap mapReplaced 0 order) = .ok (.ok true, r') := by
  have hrun : appliedAnd (fun r =>
      decide (r.lastAppliedMapUpdatedAt = some mapBefore.updatedAt) &&
      decide (∀ p ∈ mapReplaced.peers, (r.client.device.peers.peerByKey p.publicKey).all fun peer =>
        decide (peer.allowedIps.prefixes.length ≤ 1)) &&
      decide (∀ p ∈ mapReplaced.peers, ∀ q ∈ mapReplaced.peers, p ≠ q →
        p.tunnelIp.all fun ip => !r.client.device.peers.hasIp q.publicKey ip) &&
      decide ((mapReplaced.peers.filter (·.publicKey ∉ r.client.device.peers.peerKeys)).length ≤
        r.client.device.indexGenerator.remaining)) = true := by decide +kernel
  obtain ⟨client, r, hmanaged, hrun, hchecks⟩ := exists_of_appliedAnd hrun
  simp only [Bool.and_eq_true, decide_eq_true_eq] at hchecks
  obtain ⟨⟨⟨hlast, hone⟩, hfree⟩, hindexes⟩ := hchecks
  refine ⟨client, r, hmanaged, hrun, (run_applies_iff 0 rfl ?_ hrun ?_ ?_).mpr
    ⟨?_, hindexes, prefixesWhile_fits (by decide) fun p hp peer hpeer => ?_⟩⟩
  · intro c hc c' hc' heq
    let places := [(4, 3), (2, 2), (2, 2), (3, 3)]
    have hmem : ∀ c, (∃ m ∈ mapReplaced :: mapsOf [.networkMap mapBefore 0 []], Renders build m c) →
        c ∈ places.flatMap fun place => mapPeerConfigs place.1 place.2 := by
      intro c hc
      obtain ⟨m, hm, hc⟩ := hc
      rw [show places = [(4, 3), (2, 2)] ++ [(2, 2), (3, 3)] from rfl, List.flatMap_append,
        List.mem_append]
      simp only [mapsOf, List.mem_cons, List.filterMap_cons, List.filterMap_nil, List.not_mem_nil,
        or_false] at hm
      rcases hm with rfl | rfl
      · exact .inl (renders_mapPeer rfl hc)
      · exact .inr (renders_mapPeer rfl hc)
    have hdistinct : ∀ c ∈ places.flatMap (fun place => mapPeerConfigs place.1 place.2),
        ∀ c' ∈ places.flatMap (fun place => mapPeerConfigs place.1 place.2),
        build.fingerprint c = build.fingerprint c' → c = c' := by
      decide +kernel
    exact hdistinct c (hmem c hc) c' (hmem c' hc') heq
  · intro updatedAt hupdated
    cases hlast.symm.trans hupdated
    decide +kernel
  · exact ⟨by decide, by decide +kernel, by decide⟩
  · intro p hp q hq hne ip hip
    have hchecked := hfree p hp q hq hne
    rw [hip] at hchecked
    simpa using hchecked
  · have hchecked := hone p hp
    rw [hpeer] at hchecked
    simpa using hchecked

end Tendrilix.Sample
