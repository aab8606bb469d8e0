import Tendrilix.Control.TunnelRoutes

/-!
# The start of the desktop client

The directories of the configuration file are peers of the device from the start, and the first ones
to be asked for a map. So the first request already goes through the tunnel.
-/

namespace Tendrilix

open Noise Control

variable {K : Crypto} {N BYTES : ℕ}

namespace Control

/-! ### From the configuration file to the reconciler -/

section Start

variable {E D : Type} [DirectoryPeer D] (resolve : Resolver E)

def directoryPeerConfig (directory : D) : Except (ClientError E) PeerConfig :=
  match DirectoryPeer.endpoint resolve directory with
  | .error e => .error e
  | .ok none => .error (.noEndpoint (DirectoryPeer.publicKey directory))
  | .ok (some endpoint) => .ok
      { publicKey := DirectoryPeer.publicKey directory
        endpoint := some endpoint
        allowedIps := (DirectoryPeer.tunnelIps directory).map DesiredPeer.hostNet
        keepalive := some 25
        relay := none }

def directoryPeerConfigs (directories : List D) : Except (ClientError E) (List PeerConfig) :=
  if directories.isEmpty then .error .noDirectoryServers
  else directories.mapM (directoryPeerConfig resolve)

def reconcilerDirectory (directory : Directory) (index : ℕ) : Except (ClientError E) NetMap.Peer :=
  if 2 ^ 63 ≤ index then .error .indexOverflow
  else
    (DirectoryPeer.endpoint resolve directory).map fun endpoint =>
      { id := Int64.ofNat index
        publicKey := directory.publicKey
        tunnelIp := directory.tunnelIps.head?
        isDirectory := true
        routes := [⟨0, .direct endpoint⟩] }

def reconcilerDirectoriesFromConfig (directories : List Directory) :
    Except (ClientError E) (List NetMap.Peer) :=
  if directories.isEmpty then .error .noDirectoryServers
  else directories.zipIdx.mapM fun (directory, index) => reconcilerDirectory resolve directory index

/-- What the desktop client gets from its surroundings as it starts. It resolves the names of the
directories twice. -/
structure Surroundings (K : Crypto) (E : Type) where
  privateKey : K.Secret
  forwardingAuthorizer : PublicKey → PublicKey → Bool
  resources : Device.Resources
  draws : Device.Draws
  clock : ℕ → ℕ
  secrets : ℕ → K.Secret
  rng : Rng
  resolve : Resolver E
  resolveAgain : Resolver E
  traffic : List (List Device.Interlude)

/-- `main`, up to the loop. -/
def Surroundings.start (s : Surroundings K E) (directories : List Directory) :
    Call (Except (ClientError E) (PeerReconciler (LiveDevice K N BYTES))) :=
  match directoryPeerConfigs s.resolve directories with
  | .error e => .ok (.error e)
  | .ok directoryPeers =>
    match h : Device.new .alloc ⟨s.privateKey, s.forwardingAuthorizer, directoryPeers⟩ s.resources
        s.draws s.clock s.secrets with
    | .error fault => .error fault
    | .ok (.error e) => .ok (.error (.device e))
    | .ok (.ok device) =>
      match reconcilerDirectoriesFromConfig s.resolveAgain directories with
      | .error e => .ok (.error e)
      | .ok reconcilerDirectories =>
        .ok (.ok (PeerReconciler.new ⟨⟨device, _, Device.new_linked_peers h⟩, s.traffic⟩
          reconcilerDirectories s.rng))

variable {resolve} {directories : List Directory}

theorem start_eq_ok {s : Surroundings K E} {r : PeerReconciler (LiveDevice K N BYTES)}
    (h : s.start directories = .ok (.ok r)) :
    ∃ configs device reconcilerDirectories, directoryPeerConfigs s.resolve directories = .ok configs ∧
      Device.new .alloc ⟨s.privateKey, s.forwardingAuthorizer, configs⟩ s.resources s.draws s.clock
        s.secrets = .ok (.ok device) ∧
      reconcilerDirectoriesFromConfig s.resolveAgain directories = .ok reconcilerDirectories ∧
      r.client.managed.device = device ∧ r = .new r.client reconcilerDirectories s.rng := by
  unfold Surroundings.start at h
  split at h
  · cases h
  · rename_i configs hconfigs
    split at h
    · cases h
    · cases h
    · rename_i device hdevice
      split at h
      · cases h
      · rename_i reconcilerDirectories hdirectories
        cases h
        exact ⟨configs, device, reconcilerDirectories, hconfigs, hdevice, hdirectories, rfl, rfl⟩

theorem directoryPeerConfigs_mem {configs : List PeerConfig}
    (h : directoryPeerConfigs resolve directories = .ok configs) {directory : Directory}
    (hmem : directory ∈ directories) :
    ∃ config ∈ configs, config.publicKey = directory.publicKey ∧
      config.allowedIps = directory.tunnelIps.map DesiredPeer.hostNet := by
  rw [directoryPeerConfigs] at h
  split at h
  · cases h
  · obtain ⟨config, hconfig, hcall⟩ := (mapM_ok h).1 directory hmem
    refine ⟨config, hconfig, ?_⟩
    rw [directoryPeerConfig] at hcall
    split at hcall
    · cases hcall
    · cases hcall
    · cases hcall
      exact ⟨rfl, rfl⟩

theorem reconcilerDirectoriesFromConfig_mem {peers : List NetMap.Peer}
    (h : reconcilerDirectoriesFromConfig resolve directories = .ok peers) {peer : NetMap.Peer}
    (hmem : peer ∈ peers) :
    ∃ directory ∈ directories, peer.publicKey = directory.publicKey ∧
      peer.tunnelIp = directory.tunnelIps.head? := by
  rw [reconcilerDirectoriesFromConfig] at h
  split at h
  · cases h
  · obtain ⟨⟨directory, index⟩, hdirectory, hcall⟩ := (mapM_ok h).2 peer hmem
    refine ⟨directory, List.mem_of_getElem? (List.mem_zipIdx_iff_getElem?.mp hdirectory), ?_⟩
    dsimp only at hcall
    rw [reconcilerDirectory] at hcall
    split at hcall
    · cases hcall
    · cases hendpoint : DirectoryPeer.endpoint resolve directory with
      | error e =>
        rw [hendpoint] at hcall
        cases hcall
      | ok endpoint =>
        rw [hendpoint] at hcall
        cases hcall
        exact ⟨rfl, rfl⟩

end Start

end Control

theorem Peer.allowedIpsFromSlice_has {allowedIps : List IpNet} {table : AllowedIPs Unit}
    (h : allowedIpsFromSlice .alloc allowedIps = .ok (.ok table)) {net : IpNet}
    (hmem : net ∈ allowedIps) : table.Has () (.ofNet net) := by
  obtain ⟨⟨m, href⟩, hprefixes⟩ := mem_prefixes_of_slice h
  obtain ⟨u, hu⟩ := href.mem_prefixes.mp ((hprefixes _).mpr (List.mem_map_of_mem hmem))
  exact href.has_iff.mpr hu

theorem Device.new_hasIp {d : Device K N BYTES} {config : Device.Config K} {resources : Device.Resources}
    {draws : Device.Draws} {clock : ℕ → ℕ} {secrets : ℕ → K.Secret}
    (h : Device.new .alloc config resources draws clock secrets = .ok (.ok d)) {peer : PeerConfig}
    (hpeer : peer ∈ config.peers) {a : IpAddr} (ha : DesiredPeer.hostNet a ∈ peer.allowedIps) :
    d.peers.hasIp peer.publicKey a = true := by
  have hrouted := (Device.new_tables h).routed
  obtain ⟨r, hpeers, h⟩ := bind_ok_iff.mp h
  cases r with
  | error e => cases h
  | ok res =>
    obtain ⟨s, g, w⟩ := res
    cases h
    obtain ⟨added, hadded, hips⟩ := (Device.addPeers_configured hpeers).2 peer hpeer
    exact (PeerState.hasIp_iff hrouted).mpr ⟨added, _, hadded,
      Peer.allowedIpsFromSlice_has hips ha, (contains_hostNet a a).mpr rfl⟩

namespace Control.PeerReconciler

open Attempt
open NetMap (NetworkMap)

variable {F : WireFormat} {b : Build} {E : Type} {map : NetworkMap} {t : Tick E} {report : Report}

section Ledger

variable {C : Type} [DeviceClient C] {r r' : PeerReconciler C}

theorem reconcilePeerHealth_empty {now : ℕ} (hr : r.desired = ∅) :
    reconcilePeerHealth b now r = .ok (.ok (), r) := by
  have hkeys : collect b.profile.maxPeers r.desired.keys "peer health keys" = .ok [] := by
    rw [hr, collect, Bounded.collect, if_neg]
    · rfl
    · cases b.profile.maxPeers <;> simp
  rw [reconcilePeerHealth, bind_of_ok (rfl : get r = .ok (.ok r, r)), hkeys]
  rfl

theorem Ticked.idle (hdesired : r.desired = ∅) (hlast : r.lastAppliedMapUpdatedAt = none)
    (hnone : report.applied = none) (hclean : report.Clean) (h : Ticked F b r t report r') : r' = r := by
  cases h with
  | peerHealth call =>
    cases (reconcilePeerHealth_empty hdesired).symm.trans call
    rfl
  | unfetched => rfl
  | @fetched answers now order asked m outcome r' hfetch call =>
    have hfresh : r.isStale m = false := by
      rw [isStale, hlast]
      rfl
    cases outcome with
    | error e =>
      obtain ⟨failed, server, hasked, -⟩ := fetch_served hfetch
      refine absurd rfl (hclean ?_ e)
      rw [hasked]
      simp
    | ok applied =>
      obtain ⟨rfl, -⟩ := step_fresh hfresh call
      cases hnone

end Ledger

theorem exists_directory_of_asked {directories : List NetMap.Peer} {asked : List DirectoryMapEndpoint}
    (h : asked.map some <+: servers directories) {server : DirectoryMapEndpoint}
    (hserver : server ∈ asked) : ∃ d ∈ directories, d.tunnelIp = some server.host := by
  have hmem := h.subset (List.mem_map_of_mem hserver)
  obtain ⟨d, hd, hip⟩ := List.mem_map.mp hmem
  refine ⟨d, hd, ?_⟩
  change d.tunnelIp.toList.head?.map mapEndpoint = some server at hip
  cases htunnel : d.tunnelIp with
  | none =>
    rw [htunnel] at hip
    cases hip
  | some ip =>
    rw [htunnel] at hip
    cases hip
    rfl

theorem lastPeer_eq (hkeys : map.peers.Pairwise fun p q => (p.publicKey : PublicKey) ≠ q.publicKey)
    {p : NetMap.Peer} (hp : p ∈ map.peers) : lastPeer map.peers p.publicKey = some p := by
  cases hlast : lastPeer map.peers p.publicKey with
  | none =>
    have hsome := lastPeer_isSome.mpr ⟨p, hp, rfl⟩
    rw [hlast] at hsome
    cases hsome
  | some q =>
    have hq : q ∈ map.peers := List.mem_reverse.mp (List.mem_of_find?_eq_some hlast)
    by_contra hne
    have : Std.Symm fun p q : NetMap.Peer => (p.publicKey : PublicKey) ≠ q.publicKey :=
      ⟨fun _ _ h => h.symm⟩
    exact hkeys.forall hq hp (fun heq => hne (congrArg some heq)) (lastPeer_publicKey hlast)

inductive Phase (b : Build) (Known : PeerConfig → Prop)
    (start : PeerReconciler (LiveDevice K N BYTES)) (reports : List Report) :
    PeerReconciler (LiveDevice K N BYTES) → Prop
  | starting (hnone : appliedMaps reports = []) : Phase b Known start reports start
  | running {map : NetworkMap} {r : PeerReconciler (LiveDevice K N BYTES)}
      (hlast : (appliedMaps reports).getLast? = some map)
      (hr : InForce b Known LiveDevice.installed map r) : Phase b Known start reports r

variable {start r r' : PeerReconciler (LiveDevice K N BYTES)} {reports : List Report}
  {Known : PeerConfig → Prop}

theorem Phase.next (hdesired : start.desired = ∅) (hstart : start.lastAppliedMapUpdatedAt = none)
    (hfingerprints : start.appliedConfigFingerprints = ∅)
    (hinj : ∀ c c', Known c → Known c' → b.fingerprint c = b.fingerprint c' → c = c')
    (hknown : ∀ map, Offered F b.profile [t] map → ∀ config, Renders b map config → Known config)
    (hclean : report.Clean) (hr : Phase b Known start reports r) (h : Ticked F b r t report r') :
    Phase b Known start (reports ++ [report]) r' := by
  have hsound : Sound b Known LiveDevice.installed r := by
    cases hr with
    | starting =>
      refine ⟨fun key f hf => ?_, fun key peer hpeer => ?_⟩
      · rw [hfingerprints] at hf
        cases hf
      · rw [hdesired] at hpeer
        cases hpeer
    | running hlast hr => exact hr.sound
  cases happlied : report.applied with
  | some map =>
    have hinForce := (h.sound LiveDevice.installed_ledger hinj hknown hsound).2 map happlied
    refine .running ?_ hinForce
    rw [appliedMaps_append_some happlied, List.getLast?_concat]
  | none =>
    have hsame : appliedMaps (reports ++ [report]) = appliedMaps reports :=
      appliedMaps_append_none happlied
    cases hr with
    | starting hnone =>
      rw [h.idle hdesired hstart happlied hclean]
      exact .starting (hsame.trans hnone)
    | running hlast hr =>
      exact .running (hsame ▸ hlast) (h.inForce LiveDevice.installed_ledger hr happlied hclean)

/-- As long as no pass fails half way, each request for a map goes to an address that the device routes
to the very directory it is meant for, from the first request on. -/
theorem run_asks_through_tunnel {s : Surroundings K E} {directories : List Directory}
    {ticks : List (Tick E)} {events : List Device.Interlude} {outputs : List (List Device.Output)}
    {m : ManagedDevice K N BYTES} (hstart : s.start directories = .ok (.ok start))
    (hfingerprint : Set.InjOn b.fingerprint
      {config | ∃ m, Offered F b.profile ticks m ∧ Renders b m config})
    (hrun : Machine.run (tick F b) start ticks = .ok (reports, r))
    (hclean : ∀ report ∈ reports, report.Clean)
    (hkeys : ∀ map ∈ appliedMaps reports,
      map.peers.Pairwise fun p q => (p.publicKey : PublicKey) ≠ q.publicKey)
    (htraffic : Machine.run ManagedDevice.handle r.client.managed events = .ok (outputs, m))
    (htick : tick F b r t = .ok (report, r')) :
    ∀ server ∈ report.asked, ∃ d ∈ r.directories, d.tunnelIp = some server.host ∧
      m.device.peers.peersByIp.find server.host = .ok (some d.publicKey) := by
  obtain ⟨configs, device, peers, hconfigs, hnew, hpeers, hdevice, hstarted⟩ := start_eq_ok hstart
  let Known : PeerConfig → Prop := fun config =>
    ∃ m, Offered F b.profile ticks m ∧ Renders b m config
  have hinj : ∀ c c', Known c → Known c' → b.fingerprint c = b.fingerprint c' → c = c' :=
    fun c c' hc hc' h => hfingerprint hc hc' h
  have hknown : ∀ t' ∈ ticks, ∀ m, Offered F b.profile [t'] m → ∀ config, Renders b m config →
      Known config := by
    intro t' ht' m hm config hconfig
    obtain ⟨answers, now, order, hmem, hoffered⟩ := hm
    obtain rfl := List.mem_singleton.mp hmem
    exact ⟨m, ⟨answers, now, order, ht', hoffered⟩, hconfig⟩
  have hphase : (∀ report ∈ reports, report.Clean) → Phase b Known start reports r := by
    refine Machine.run_history_along (I := fun past s =>
      (∀ report ∈ past, report.Clean) → Phase b Known start past s) (C := fun _ t' => t' ∈ ticks) []
      (fun past s t' o s' hmem hs hstep hreports => ?_)
      (Machine.along_of_forall fun _ _ hmem => hmem) hrun fun _ => .starting rfl
    refine (hs fun report hreport => hreports report (by simp [hreport])).next ?_ ?_ ?_ hinj
      (hknown t' hmem) (hreports o (by simp)) (tick_ticked hstep)
    · rw [hstarted]
      rfl
    · rw [hstarted]
      rfl
    · rw [hstarted]
      rfl
  intro server hserver
  obtain ⟨d, hd, hip⟩ := exists_directory_of_asked (tick_ticked htick).asked_servers hserver
  obtain ⟨route, hroute, hkey⟩ := m.linked.ready.tables.find server.host
  refine ⟨d, hd, hip, hroute.trans (congrArg Except.ok ((hkey d.publicKey).mpr ?_))⟩
  cases hphase hclean with
  | starting =>
    rw [(ManagedDevice.run_handle_sameIps htraffic).hasIp, hdevice]
    rw [hstarted] at hd
    obtain ⟨directory, hdirectory, hpublicKey, htunnel⟩ := reconcilerDirectoriesFromConfig_mem hpeers hd
    obtain ⟨config, hconfig, hconfigKey, hips⟩ := directoryPeerConfigs_mem hconfigs hdirectory
    rw [hpublicKey, ← hconfigKey]
    refine Device.new_hasIp hnew hconfig ?_
    rw [hips]
    exact List.mem_map_of_mem (List.mem_of_mem_head? (htunnel.symm.trans hip))
  | @running map _ hlast hr =>
    rw [hstarted] at hrun
    rw [(run_recorded hrun).records.1, directoriesAfter, hlast] at hd
    have hpeer : d ∈ map.peers := (List.mem_filter.mp hd).1
    rw [hr.routes (ManagedDevice.run_handle_installed htraffic)]
    exact ⟨d, lastPeer_eq (hkeys map (List.mem_of_getLast? hlast)) hpeer, hip⟩

end Control.PeerReconciler

end Tendrilix

/-! ### From two directories to a third -/

namespace Tendrilix.Sample

open Noise Control PeerReconciler
open NetMap (NetworkMap)

def configDirectory (n : ℕ) : Directory := ⟨(key n).toKeyBytes, [directoryIp n], "directory"⟩

theorem tick_ne_command (c : Device.Command) : Device.Event.tick [] ≠ .command c := by
  intro h
  cases h

def surroundings : Surroundings Crypto.sample Unit where
  privateKey := (9 : ℕ)
  forwardingAuthorizer := fun _ _ => false
  resources := resources
  draws := draws
  clock := clock
  secrets := secrets
  rng := ⟨fun _ => 0, 0⟩
  resolve := fun _ => .ok [addr 1]
  resolveAgain := fun _ => .ok [addr 1]
  traffic := [[⟨.tick [], tick_ne_command⟩]]

def configDirectories : List Directory := [configDirectory 1, configDirectory 2]

def desktopStart : Call (Except (ClientError Unit) (PeerReconciler (LiveDevice Crypto.sample 8 8192))) :=
  surroundings.start configDirectories

def directoryConfigs (n : ℕ) : List PeerConfig :=
  [some (addr n), none].map fun endpoint =>
    ⟨(directory n).publicKey, endpoint, [DesiredPeer.hostNet (directoryIp n)], some 25, none⟩

theorem renders_namesThird {config : PeerConfig} (h : Renders build namesThird config) :
    config ∈ directoryConfigs 3 := by
  obtain ⟨peer, hpeer, allowedIps, policies, i, hips, hpolicies, rfl⟩ := h
  obtain rfl := List.mem_singleton.mp hpeer
  cases hips
  have hpolicies' : routePoliciesForPeer build namesThird (directory 3) =
      .ok [.direct (some (addr 3)) 0] := by
    rfl
  cases hpolicies'.symm.trans hpolicies
  cases i with
  | zero => exact List.mem_cons_self
  | succ i => exact List.mem_cons_of_mem _ List.mem_cons_self

def secondAnswers : Tick Unit := .networkMap (answersFrom 2 namesThird) 0 []

theorem offered_secondAnswers {ticks : List (Tick Unit)} (hticks : ∀ t ∈ ticks, t = secondAnswers)
    {map : NetworkMap} (h : Offered postcard .alloc ticks map) : map = namesThird := by
  obtain ⟨answers, now, order, hmem, calls, server, hserved⟩ := h
  cases hticks _ hmem
  rw [getNetworkMap, answersFrom] at hserved
  split at hserved
  · cases hserved
  · rename_i body hbody
    split at hbody
    · cases hbody
      have hdecode : postcard.decode .alloc (postcard.encode .alloc namesThird) = some namesThird := by
        decide +kernel
      rw [hdecode] at hserved
      cases hserved
      rfl
    · cases hbody

theorem fingerprint_injOn {ticks : List (Tick Unit)} (hticks : ∀ t ∈ ticks, t = secondAnswers) :
    Set.InjOn build.fingerprint
      {config | ∃ m, Offered postcard build.profile ticks m ∧ Renders build m config} := by
  have hdistinct : ∀ c ∈ directoryConfigs 3, ∀ c' ∈ directoryConfigs 3,
      build.fingerprint c = build.fingerprint c' → c = c' := by
    decide +kernel
  rintro c ⟨m, hm, hc⟩ c' ⟨m', hm', hc'⟩ heq
  obtain rfl := offered_secondAnswers hticks hm
  obtain rfl := offered_secondAnswers hticks hm'
  exact hdistinct c (renders_namesThird hc) c' (renders_namesThird hc') heq

theorem exists_desktop_run :
    ∃ start reports r outputs m, desktopStart = .ok (.ok start) ∧
      Machine.run (tick postcard build) start [secondAnswers] = .ok (reports, r) ∧
      Machine.run ManagedDevice.handle r.client.managed [⟨.tick [], tick_ne_command⟩] =
        .ok (outputs, m) ∧
      appliedMaps reports = [namesThird] ∧ (∀ report ∈ reports, report.failure = none) ∧
      ∃ report r', tick postcard build r secondAnswers = .ok (report, r') ∧
        report.asked = [mapEndpoint (directoryIp 3)] := by
  have hrun : okAnd (okAnd fun start => okAnd (fun p =>
      (decide (appliedMaps p.1 = [namesThird]) && decide (∀ report ∈ p.1, report.failure = none)) &&
      (okAnd (fun _ => true)
        (Machine.run ManagedDevice.handle p.2.client.managed [⟨.tick [], tick_ne_command⟩]) &&
      okAnd (fun q => decide (q.1.asked = [mapEndpoint (directoryIp 3)]))
        (tick postcard build p.2 secondAnswers)))
      (Machine.run (tick postcard build) start [secondAnswers])) desktopStart = true := by
    decide +kernel
  obtain ⟨e, hstart, hstarted⟩ := exists_of_okAnd hrun
  obtain ⟨start, rfl, hran⟩ := exists_of_okAnd hstarted
  obtain ⟨⟨reports, r⟩, hrun, hchecks⟩ := exists_of_okAnd hran
  obtain ⟨hreports, hlater⟩ := Bool.and_eq_true_iff.mp hchecks
  obtain ⟨happlied, hfailure⟩ := Bool.and_eq_true_iff.mp hreports
  obtain ⟨htraffic, htick⟩ := Bool.and_eq_true_iff.mp hlater
  obtain ⟨⟨outputs, m⟩, htraffic, -⟩ := exists_of_okAnd htraffic
  obtain ⟨⟨report, r'⟩, htick, hasked⟩ := exists_of_okAnd htick
  exact ⟨start, reports, r, outputs, m, hstart, hrun, htraffic, of_decide_eq_true happlied,
    of_decide_eq_true hfailure, report, r', htick, of_decide_eq_true hasked⟩

theorem run_asks_through_tunnel_third :
    ∃ start reports r outputs m report r', desktopStart = .ok (.ok start) ∧
      Machine.run (tick postcard build) start [secondAnswers] = .ok (reports, r) ∧
      Machine.run ManagedDevice.handle r.client.managed [⟨.tick [], tick_ne_command⟩] =
        .ok (outputs, m) ∧
      tick postcard build r secondAnswers = .ok (report, r') ∧
      report.asked = [mapEndpoint (directoryIp 3)] ∧
      ∀ server ∈ report.asked, ∃ d ∈ r.directories, d.tunnelIp = some server.host ∧
        m.device.peers.peersByIp.find server.host = .ok (some d.publicKey) := by
  obtain ⟨start, reports, r, outputs, m, hstart, hrun, htraffic, happlied, hfailure, report, r', htick,
    hasked⟩ := exists_desktop_run
  refine ⟨start, reports, r, outputs, m, report, r', hstart, hrun, htraffic, htick, hasked,
    run_asks_through_tunnel hstart ?_ hrun ?_ ?_ htraffic htick⟩
  · exact fingerprint_injOn fun t ht => List.mem_singleton.mp ht
  · intro report hreport _ e
    rw [hfailure report hreport]
    exact Option.some_ne_none _ ∘ Eq.symm
  · rw [happlied]
    intro map hmap
    rw [List.mem_singleton.mp hmap]
    exact List.pairwise_singleton _ _

theorem run_routes_map_third :
    ∃ m : ManagedDevice Crypto.sample 8 8192, ∀ a, ∃ route,
      m.device.peers.peersByIp.find a = .ok route ∧
        ∀ key, route = some key ↔ ∃ p, lastPeer namesThird.peers key = some p ∧ p.tunnelIp = some a := by
  obtain ⟨start, reports, r, outputs, m, hstart, hrun, htraffic, happlied, -⟩ := exists_desktop_run
  obtain ⟨-, -, directories, -, -, -, -, hstarted⟩ := start_eq_ok hstart
  obtain ⟨report, r', rest, htick, hrest, rfl⟩ := Machine.run_cons_ok.mp hrun
  cases hrest
  rw [hstarted] at htick
  have hbefore : Machine.run (tick postcard build) (new start.client directories surroundings.rng)
      ([] : List (Tick Unit)) = .ok ([], new start.client directories surroundings.rng) := rfl
  have hafter : Machine.run (tick postcard build) r ([] : List (Tick Unit)) = .ok ([], r) := rfl
  refine ⟨m, run_routes_map (fingerprint_injOn ?_) hbefore htick ?_ hafter ?_ htraffic⟩
  · exact fun t ht => List.mem_singleton.mp ht
  · cases hmap : report.applied with
    | none =>
      rw [appliedMaps, List.filterMap_cons_none hmap] at happlied
      cases happlied
    | some map =>
      rw [appliedMaps, List.filterMap_cons_some hmap] at happlied
      cases happlied
      rfl
  · exact fun _ h => absurd h List.not_mem_nil

end Tendrilix.Sample
