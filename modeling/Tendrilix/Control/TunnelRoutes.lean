import Tendrilix.Control.FetchLoop
import Tendrilix.Control.LiveDevice

/-!
# Routes through the tunnel

Once a map has been applied, the device sends what goes to an address to the peer that has the address
in the map, whatever it handles meanwhile. This includes the requests for the next map.
-/

namespace Tendrilix

open Noise Control

variable {K : Crypto} {N BYTES : ℕ}

namespace Device

variable {d : Device K N BYTES} {installed : PublicKey → Option PeerConfig}

theorem Tables.find (h : d.Tables) (a : IpAddr) :
    ∃ route, d.peers.peersByIp.find a = .ok route ∧
      ∀ key, route = some key ↔ d.peers.hasIp key a = true := by
  obtain ⟨route, hroute, hkey⟩ := (h.routed.consistent h.indexed).find a
  refine ⟨route, hroute, fun key => (hkey key).trans ?_⟩
  rw [PeerState.hasIp]
  cases hpeer : d.peers.peerByKey key with
  | none => simp
  | some peer =>
    rw [Option.any_some]
    constructor
    · rintro ⟨p, hp, hallowed⟩
      cases hp
      rw [hallowed]
      rfl
    · intro hallowed
      obtain ⟨allowed, hcall, htrue⟩ := exists_of_okAnd hallowed
      exact ⟨peer, rfl, hcall.trans (congrArg Except.ok htrue)⟩

theorem Linked.hasIp_none (h : d.Linked installed) {key : PublicKey} (hnone : installed key = none)
    (a : IpAddr) : d.peers.hasIp key a = false := by
  have hkey : key ∉ d.peers.peers := by
    rw [h.keys, hnone]
    simp
  rw [PeerState.hasIp, PeerState.peerByKey, AList.lookup_eq_none.mpr hkey]
  rfl

end Device

namespace Control.PeerReconciler

open Attempt
open NetMap (NetworkMap)

variable {F : WireFormat} {b : Build} {E : Type} {map : NetworkMap} {t : Tick E} {report : Report}

/-! ### Passes that do not fail half way -/

/-- The report of a pass that has not failed on the device with a map at hand. -/
def Report.Clean (report : Report) : Prop :=
  report.asked ≠ [] → ∀ e, report.failure ≠ some (.reconcile e)

/-- The maps that the servers hold ready in the course of a run. -/
def Offered (F : WireFormat) (profile : Profile) (ticks : List (Tick E)) (map : NetworkMap) : Prop :=
  ∃ answers now order, .networkMap answers now order ∈ ticks ∧
    ∃ calls server, getNetworkMap F profile answers calls server = .ok map

theorem offered_of_fetch {answers : Answers E} {now : ℕ} {order : List PublicKey}
    {ticks : List (Tick E)} {directories : List NetMap.Peer} {asked : List DirectoryMapEndpoint}
    (hmem : .networkMap answers now order ∈ ticks)
    (hfetch : fetch F b.profile answers directories = (asked, .ok map)) :
    Offered F b.profile ticks map := by
  obtain ⟨failed, server, -, -, hserved⟩ := fetch_served hfetch
  exact ⟨answers, now, order, hmem, _, server, hserved⟩

section Ledger

variable {C : Type} {r r' : PeerReconciler C} {Known : PeerConfig → Prop}
  {installed : C → PublicKey → Option PeerConfig}

theorem allots_insensitive (map : NetworkMap) :
    Insensitive fun r : PeerReconciler C => Allots map r.desired :=
  ⟨fun _ h => h, fun _ h => h, fun _ h => h, fun _ h => h, fun _ hlookup h => h.replace hlookup rfl⟩

variable [DeviceClient C]

/-- The device and the reconciler agree on the peers of a map. -/
structure InForce (b : Build) (Known : PeerConfig → Prop)
    (installed : C → PublicKey → Option PeerConfig) (map : NetworkMap) (r : PeerReconciler C) : Prop where
  sound : Sound b Known installed r
  agreed : Agreed installed r
  allots : Allots map r.desired

theorem reconcileNetworkMap_inForce (hledger : Ledger installed)
    (hinj : ∀ c c', Known c → Known c' → b.fingerprint c = b.fingerprint c' → c = c')
    (hknown : ∀ config, Renders b map config → Known config) {now : ℕ} {order : List PublicKey}
    (hr : Sound b Known installed r)
    (h : reconcileNetworkMap b map now order r = .ok (.ok true, r')) :
    InForce b Known installed map r' := by
  have hpost := reconcileNetworkMap_triple hledger hinj hknown now order r hr _ _ h
  have hall : Insensitive fun _ : PeerReconciler C => True :=
    ⟨fun _ h => h, fun _ h => h, fun _ h => h, fun _ h => h, fun _ _ h => h⟩
  obtain ⟨r₀, -, happlied⟩ := hall.reconcileNetworkMap r trivial _ _ h
  exact ⟨hpost.1, hpost.2 rfl, happlied.allots⟩

theorem Ticked.sound (hledger : Ledger installed)
    (hinj : ∀ c c', Known c → Known c' → b.fingerprint c = b.fingerprint c' → c = c')
    (hknown : ∀ map, Offered F b.profile [t] map → ∀ config, Renders b map config → Known config)
    (hr : Sound b Known installed r) (h : Ticked F b r t report r') :
    Sound b Known installed r' ∧ ∀ map, report.applied = some map → InForce b Known installed map r' := by
  cases h with
  | @peerHealth now outcome r' call =>
    have htriple : Triple (Views b Known installed False) _ _ _ :=
      reconcilePeerHealth_triple hledger now
    have hviews := htriple r ⟨hr, False.elim⟩ _ _ call
    refine ⟨?_, fun map hmap => by cases hmap⟩
    revert hviews
    split
    · exact fun h => h.1
    · exact fun h => h.1
  | unfetched => exact ⟨hr, fun map hmap => by cases hmap⟩
  | @fetched answers now order asked map outcome r' hfetch call =>
    have hrenders := hknown map (offered_of_fetch List.mem_cons_self hfetch)
    have hpost := reconcileNetworkMap_triple hledger hinj hrenders now order r hr _ _ call
    cases outcome with
    | error e => exact ⟨hpost, fun map hmap => by cases hmap⟩
    | ok applied =>
      refine ⟨hpost.1, fun m hm => ?_⟩
      cases applied with
      | false => cases hm
      | true =>
        cases hm
        exact reconcileNetworkMap_inForce hledger hinj hrenders hr call

/-- A map stays in force until a pass over another one gets as far as the device. -/
theorem Ticked.inForce (hledger : Ledger installed) (hr : InForce b Known installed map r)
    (hnone : report.applied = none) (hclean : report.Clean) (h : Ticked F b r t report r') :
    InForce b Known installed map r' := by
  have hallots : Allots map r'.desired := by
    rcases h.insensitive (allots_insensitive map) hr.allots with ⟨-, hs⟩ | ⟨m, r₀, hsome, -⟩
    · exact hs
    · cases hnone.symm.trans hsome
  cases h with
  | @peerHealth now outcome r' call =>
    have htriple : Triple (Views b Known installed True) _ _ _ :=
      reconcilePeerHealth_triple hledger now
    have hviews := htriple r ⟨hr.sound, fun _ => hr.agreed⟩ _ _ call
    revert hviews
    split
    · exact fun h => ⟨h.1, h.2 trivial, hallots⟩
    · exact fun h => ⟨h.1, h.2 trivial, hallots⟩
  | unfetched => exact hr
  | @fetched answers now order asked m outcome r' hfetch call =>
    cases hstale : r.isStale m with
    | true =>
      have hskip : step b r (.networkMap m now order) = .ok (.ok false, r) := step_stale hstale
      cases hskip.symm.trans call
      exact hr
    | false =>
      cases outcome with
      | error e =>
        obtain ⟨failed, server, hasked, -⟩ := fetch_served hfetch
        refine absurd rfl (hclean ?_ e)
        rw [hasked]
        simp
      | ok applied =>
        obtain ⟨rfl, -⟩ := step_fresh hstale call
        cases hnone

end Ledger

variable {r r₀ r₁ : PeerReconciler (LiveDevice K N BYTES)}

theorem InForce.routes {Known : PeerConfig → Prop}
    (hr : InForce b Known LiveDevice.installed map r) {m : ManagedDevice K N BYTES}
    (hinstalled : m.installed = r.client.installed) (key : PublicKey) (a : IpAddr) :
    m.device.peers.hasIp key a = true ↔ ∃ p, lastPeer map.peers key = some p ∧ p.tunnelIp = some a := by
  have hallots := hr.allots key
  cases hlookup : r.desired.lookup key with
  | none =>
    have hnone : m.installed key = none := by
      rw [hinstalled, ← Option.not_isSome_iff_eq_none, hr.agreed.keys, ← AList.lookup_isSome, hlookup]
      simp
    rw [m.linked.hasIp_none hnone a]
    rw [hlookup, Option.map_none, eq_comm, Option.map_eq_none_iff] at hallots
    rw [hallots]
    simp
  | some peer =>
    have hconfig : m.installed key = some peer.config :=
      hinstalled ▸ (hr.agreed.settled key peer hlookup).config
    rw [hlookup, Option.map_some, eq_comm, Option.map_eq_some_iff] at hallots
    obtain ⟨p, hp, hips⟩ := hallots
    have hallowed : peer.config.allowedIps = p.tunnelIp.toList.map DesiredPeer.hostNet :=
      congrArg (List.map DesiredPeer.hostNet) hips.symm
    rw [m.linked.ips key peer.config p.tunnelIp hconfig hallowed a, hp]
    simp

/-- From the time a map has been applied until a pass over another map gets as far as the device, an
address is routed to the peer that has it in the map and to no other, whatever health samplings,
failed fetches, packets and ticks come in between. -/
theorem run_routes_map {client : LiveDevice K N BYTES} {directories : List NetMap.Peer} {rng : Rng}
    {before after : List (Tick E)} {reports reports' : List Report}
    {events : List Device.Interlude} {outputs : List (List Device.Output)} {m : ManagedDevice K N BYTES}
    (hfingerprint : Set.InjOn b.fingerprint
      {config | ∃ m, Offered F b.profile (before ++ [t]) m ∧ Renders b m config})
    (hbefore : Machine.run (tick F b) (new client directories rng) before = .ok (reports, r₀))
    (htick : tick F b r₀ t = .ok (report, r₁)) (hmap : report.applied = some map)
    (hafter : Machine.run (tick F b) r₁ after = .ok (reports', r))
    (hsince : ∀ report ∈ reports', report.applied = none ∧ report.Clean)
    (htraffic : Machine.run ManagedDevice.handle r.client.managed events = .ok (outputs, m))
    (a : IpAddr) :
    ∃ route, m.device.peers.peersByIp.find a = .ok route ∧
      ∀ key, route = some key ↔ ∃ p, lastPeer map.peers key = some p ∧ p.tunnelIp = some a := by
  let Known : PeerConfig → Prop := fun config =>
    ∃ m, Offered F b.profile (before ++ [t]) m ∧ Renders b m config
  have hinj : ∀ c c', Known c → Known c' → b.fingerprint c = b.fingerprint c' → c = c' :=
    fun c c' hc hc' h => hfingerprint hc hc' h
  have hknown : ∀ t' ∈ before ++ [t], ∀ m, Offered F b.profile [t'] m → ∀ config,
      Renders b m config → Known config := by
    intro t' ht' m hm config hconfig
    obtain ⟨answers, now, order, hmem, hoffered⟩ := hm
    obtain rfl := List.mem_singleton.mp hmem
    exact ⟨m, ⟨answers, now, order, ht', hoffered⟩, hconfig⟩
  have hstart : Sound b Known LiveDevice.installed (new client directories rng) :=
    ⟨fun key f hf => by simp [new] at hf, fun key peer hpeer => by simp [new] at hpeer⟩
  have hsound : Sound b Known LiveDevice.installed r₀ :=
    Machine.run_invariant (fun s t' o s' hmem hs hstep =>
      ((tick_ticked hstep).sound LiveDevice.installed_ledger hinj (hknown t' (by simp [hmem])) hs).1)
      hbefore hstart
  have hinForce : InForce b Known LiveDevice.installed map r₁ :=
    ((tick_ticked htick).sound LiveDevice.installed_ledger hinj (hknown t (by simp)) hsound).2 map hmap
  have hlater : (∀ report ∈ reports', report.applied = none ∧ report.Clean) →
      InForce b Known LiveDevice.installed map r := by
    refine Machine.run_history_along (I := fun past s =>
      (∀ report ∈ past, report.applied = none ∧ report.Clean) →
        InForce b Known LiveDevice.installed map s) []
      (fun past s t' o s' _ hs hstep hclean => ?_)
      (Machine.along_of_forall (C := fun _ _ => True) fun _ _ _ => trivial) hafter fun _ => hinForce
    obtain ⟨hnone, hreport⟩ := hclean o (by simp)
    exact (tick_ticked hstep).inForce LiveDevice.installed_ledger
      (hs fun report hmem => hclean report (by simp [hmem])) hnone hreport
  obtain ⟨route, hroute, hkey⟩ := m.linked.ready.tables.find a
  refine ⟨route, hroute, fun key => (hkey key).trans ?_⟩
  exact (hlater hsince).routes (ManagedDevice.run_handle_installed htraffic) key a

end Control.PeerReconciler

end Tendrilix
