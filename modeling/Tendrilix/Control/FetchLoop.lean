import Tendrilix.Control.Passes
import Tendrilix.Control.Wire

/-!
# Fetching network maps

The loop of the reconciler asks the directories that it knows, one after the other, for a network
map. A map that is applied names the directories to ask from then on.
-/

namespace Tendrilix.Control

open NetMap (NetworkMap DateTime)

/-! ### Directories -/

/-- The errors of the desktop client, without their texts. `E` is an error of the system or of a
library. -/
inductive ClientError (E : Type)
  | noDirectoryServers
  | noTunnelIps (publicKey : KeyBytes)
  | noEndpoint (publicKey : KeyBytes)
  | unresolved (endpoint : String) (e : E)
  | noAddresses (endpoint : String)
  | indexOverflow
  | device (e : Device.Error)
  | fetchFailed
  | http (e : E)
  | postcard

structure Directory where
  publicKey : KeyBytes
  tunnelIps : List IpAddr
  /-- A host and a port. -/
  endpoint : String

abbrev Resolver (E : Type) := String → Except E (List SocketAddr)

class DirectoryPeer (D : Type) where
  publicKey : D → KeyBytes
  tunnelIps : D → List IpAddr
  endpoint : {E : Type} → Resolver E → D → Except (ClientError E) (Option SocketAddr)

def Directory.resolvedEndpoint {E : Type} (resolve : Resolver E) (d : Directory) :
    Except (ClientError E) (Option SocketAddr) :=
  match resolve d.endpoint with
  | .error e => .error (.unresolved d.endpoint e)
  | .ok [] => .error (.noAddresses d.endpoint)
  | .ok (a :: _) => .ok (some a)

instance : DirectoryPeer Directory where
  publicKey := Directory.publicKey
  tunnelIps := Directory.tunnelIps
  endpoint := Directory.resolvedEndpoint

def directEndpoint (p : NetMap.Peer) : Option SocketAddr :=
  p.routes.findSome? fun route =>
    match route.kind with
    | .direct endpoint => endpoint
    | .relay _ => none

instance : DirectoryPeer NetMap.Peer where
  publicKey := NetMap.Peer.publicKey
  tunnelIps p := p.tunnelIp.toList
  endpoint _ p := .ok (directEndpoint p)

structure DirectoryMapEndpoint where
  host : IpAddr
  port : ℕ
  path : String
  deriving DecidableEq

def defaultHttpPort : ℕ := 80

def networkMapPath : String := "/v1alpha1/map"

def mapEndpoint (tunnelIp : IpAddr) : DirectoryMapEndpoint := ⟨tunnelIp, defaultHttpPort, networkMapPath⟩

def DirectoryMapEndpoint.fromDirectory {E D : Type} [DirectoryPeer D] (directory : D) :
    Except (ClientError E) DirectoryMapEndpoint :=
  match DirectoryPeer.tunnelIps directory with
  | [] => .error (.noTunnelIps (DirectoryPeer.publicKey directory))
  | tunnelIp :: _ => .ok (mapEndpoint tunnelIp)

/-! ### One fetch -/

abbrev Answers (E : Type) := ℕ → DirectoryMapEndpoint → Except E Bytes

variable {E D C : Type} [DirectoryPeer D] (F : WireFormat) (profile : Profile)

def getNetworkMap (answers : Answers E) (calls : ℕ) (server : DirectoryMapEndpoint) :
    Except (ClientError E) NetworkMap :=
  match answers calls server with
  | .error e => .error (.http e)
  | .ok body => (F.decode profile body).elim (.error .postcard) .ok

/-- The loop of `fetch`, with the servers that it asks. -/
def fetchLoop (answers : Answers E) :
    List D → ℕ → Option (ClientError E) →
      List DirectoryMapEndpoint × Except (ClientError E) NetworkMap
  | [], _, lastError => ([], .error (lastError.getD .fetchFailed))
  | directory :: directories, calls, _ =>
    match DirectoryMapEndpoint.fromDirectory directory with
    | .error e => ([], .error e)
    | .ok server =>
      match getNetworkMap F profile answers calls server with
      | .ok map => ([server], .ok map)
      | .error fetchError =>
        let (asked, result) := fetchLoop answers directories (calls + 1) (some fetchError)
        (server :: asked, result)

def fetch (answers : Answers E) (directories : List D) :
    List DirectoryMapEndpoint × Except (ClientError E) NetworkMap :=
  if directories.isEmpty then ([], .error .noDirectoryServers)
  else fetchLoop F profile answers directories 0 none

/-! ### The loop -/

inductive LoopError
  | fetchNetworkMap
  | reconcile (e : ReconcileError)
  deriving DecidableEq

namespace PeerReconciler

open Attempt

/-- What the log tells of one pass of the loop. -/
structure Report where
  asked : List DirectoryMapEndpoint := []
  applied : Option NetworkMap := none
  failure : Option LoopError := none

/-- The two timers of the loop. -/
inductive Tick (E : Type)
  | networkMap (answers : Answers E) (now : ℕ) (order : List PublicKey)
  | peerHealth (now : ℕ)

variable [DeviceClient C]

/-- The map that was fetched, if it was applied. -/
def fetchAndReconcileNetworkMap (b : Build) (fetched : Except (ClientError E) NetworkMap) (now : ℕ)
    (order : List PublicKey) : Attempt LoopError (PeerReconciler C) (Option NetworkMap) := do
  let map ← ofExcept (fetched.mapError fun _ => .fetchNetworkMap)
  let applied ← mapError .reconcile (reconcileNetworkMap b map now order)
  pure (if applied then some map else none)

def report (asked : List DirectoryMapEndpoint) :
    Except LoopError (Option NetworkMap) × PeerReconciler C → Report × PeerReconciler C
  | (.ok applied, r) => ({ asked := asked, applied := applied }, r)
  | (.error e, r) => ({ asked := asked, failure := some e }, r)

def tick (F : WireFormat) (b : Build) (r : PeerReconciler C) :
    Tick E → Call (Report × PeerReconciler C)
  | .networkMap answers now order => do
    let (asked, fetched) := fetch F b.profile answers r.directories
    let pass ← fetchAndReconcileNetworkMap b fetched now order r
    return report asked pass
  | .peerHealth now => do
    let pass ← (do mapError .reconcile (reconcilePeerHealth b now); pure none :
      Attempt LoopError (PeerReconciler C) (Option NetworkMap)) r
    return report [] pass

end PeerReconciler

/-! ### What a fetch asks for and what it takes -/

def servers (directories : List D) : List (Option DirectoryMapEndpoint) :=
  directories.map fun directory => (DirectoryPeer.tunnelIps directory).head?.map mapEndpoint

/-- The last of the servers asked has served the map, and those before it none that can be read. -/
def Served (answers : Answers E) (calls : ℕ) (asked : List DirectoryMapEndpoint) (map : NetworkMap) :
    Prop :=
  ∃ failed server, asked = failed ++ [server] ∧
    (∀ i (h : i < failed.length), ∀ m, getNetworkMap F profile answers (calls + i) failed[i] ≠ .ok m) ∧
    getNetworkMap F profile answers (calls + failed.length) server = .ok map

section Fetch

variable {F profile} {answers : Answers E} {directories : List D} {calls : ℕ}
  {lastError : Option (ClientError E)} {map : NetworkMap} {asked : List DirectoryMapEndpoint}

theorem fromDirectory_cases (E : Type) (directory : D) :
    (DirectoryPeer.tunnelIps directory = [] ∧ DirectoryMapEndpoint.fromDirectory directory =
        .error (ClientError.noTunnelIps (E := E) (DirectoryPeer.publicKey directory))) ∨
    ∃ ip ips, DirectoryPeer.tunnelIps directory = ip :: ips ∧
      DirectoryMapEndpoint.fromDirectory (E := E) directory = .ok (mapEndpoint ip) := by
  rw [DirectoryMapEndpoint.fromDirectory]
  cases DirectoryPeer.tunnelIps directory with
  | nil => exact .inl ⟨rfl, rfl⟩
  | cons ip ips => exact .inr ⟨ip, ips, rfl, rfl⟩

theorem servers_cons (directory : D) :
    servers (directory :: directories) =
      (DirectoryPeer.tunnelIps directory).head?.map mapEndpoint :: servers directories := rfl

theorem fetchLoop_asked :
    (fetchLoop F profile answers directories calls lastError).1.map some <+: servers directories := by
  induction directories generalizing calls lastError with
  | nil => exact List.nil_prefix
  | cons directory directories ih =>
    rw [fetchLoop, servers_cons]
    obtain ⟨-, h⟩ | ⟨ip, ips, hips, h⟩ := fromDirectory_cases E directory
    · rw [h]
      exact List.nil_prefix
    · rw [h, hips]
      dsimp only
      split
      · exact List.prefix_append [some (mapEndpoint ip)] (servers directories)
      · exact List.cons_prefix_cons.mpr ⟨rfl, ih⟩

theorem fetchLoop_served
    (h : fetchLoop F profile answers directories calls lastError = (asked, .ok map)) :
    Served F profile answers calls asked map := by
  induction directories generalizing calls lastError asked with
  | nil => cases h
  | cons directory directories ih =>
    rw [fetchLoop] at h
    split at h
    · cases h
    · rename_i server _
      split at h
      · rename_i hserved
        cases h
        exact ⟨[], server, rfl, fun i hi => absurd hi (Nat.not_lt_zero i), hserved⟩
      · rename_i e herror
        generalize hrest : fetchLoop F profile answers directories (calls + 1) (some e) = rest at h
        obtain ⟨asked', result⟩ := rest
        cases h
        obtain ⟨failed, last, rfl, hfailed, hlast⟩ := ih hrest
        refine ⟨server :: failed, last, rfl, fun i hi => ?_, ?_⟩
        · cases i with
          | zero =>
            intro m hm
            cases herror.symm.trans hm
          | succ i =>
            have hrest := hfailed i (Nat.lt_of_succ_lt_succ hi)
            rwa [Nat.add_assoc, Nat.add_comm 1] at hrest
        · rw [List.length_cons, Nat.add_comm failed.length, ← Nat.add_assoc]
          exact hlast

theorem fetch_asked : (fetch F profile answers directories).1.map some <+: servers directories := by
  rw [fetch]
  split
  · exact List.nil_prefix
  · exact fetchLoop_asked

theorem fetch_asked_head :
    (fetch F profile answers directories).1.head? = (servers directories).head?.join := by
  cases directories with
  | nil => rfl
  | cons directory directories =>
    change (fetchLoop F profile answers (directory :: directories) 0 none).1.head? = _
    rw [fetchLoop, servers_cons]
    obtain ⟨hips, h⟩ | ⟨ip, ips, hips, h⟩ := fromDirectory_cases E directory
    · rw [h, hips]
      rfl
    · rw [h, hips]
      dsimp only
      split
      · rfl
      · rfl

theorem fetch_served (h : fetch F profile answers directories = (asked, .ok map)) :
    Served F profile answers 0 asked map := by
  rw [fetch] at h
  split at h
  · cases h
  · exact fetchLoop_served h

end Fetch

/-! ### What a pass leaves on record -/

namespace PeerReconciler

open Attempt

variable {F} {C : Type} {b : Build} {map : NetworkMap} {directories : List NetMap.Peer}
  {last : Option DateTime}

def Records (directories : List NetMap.Peer) (last : Option DateTime) (r : PeerReconciler C) : Prop :=
  r.directories = directories ∧ r.lastAppliedMapUpdatedAt = last

theorem records_insensitive : Insensitive (Records (C := C) directories last) :=
  ⟨fun _ h => h, fun _ h => h, fun _ h => h, fun _ h => h, fun _ _ h => h⟩

variable [DeviceClient C] {E : Type} {r r' : PeerReconciler C} {t : Tick E} {report : Report}

def failureOf {α : Type} : Except ReconcileError α → Option LoopError
  | .ok _ => none
  | .error e => some (.reconcile e)

def appliedOf (map : NetworkMap) : Except ReconcileError Bool → Option NetworkMap
  | .ok true => some map
  | _ => none

inductive Ticked (F : WireFormat) (b : Build) (r : PeerReconciler C) :
    Tick E → Report → PeerReconciler C → Prop
  | peerHealth {now : ℕ} {outcome : Except ReconcileError Unit} {r' : PeerReconciler C}
      (call : reconcilePeerHealth b now r = .ok (outcome, r')) :
      Ticked F b r (.peerHealth now) { failure := failureOf outcome } r'
  | unfetched {answers : Answers E} {now : ℕ} {order : List PublicKey}
      {asked : List DirectoryMapEndpoint} {e : ClientError E}
      (hfetch : fetch F b.profile answers r.directories = (asked, .error e)) :
      Ticked F b r (.networkMap answers now order)
        { asked := asked, failure := some .fetchNetworkMap } r
  | fetched {answers : Answers E} {now : ℕ} {order : List PublicKey}
      {asked : List DirectoryMapEndpoint} {map : NetworkMap} {outcome : Except ReconcileError Bool}
      {r' : PeerReconciler C} (hfetch : fetch F b.profile answers r.directories = (asked, .ok map))
      (call : reconcileNetworkMap b map now order r = .ok (outcome, r')) :
      Ticked F b r (.networkMap answers now order)
        { asked := asked, applied := appliedOf map outcome, failure := failureOf outcome } r'

theorem tick_ticked (h : tick F b r t = .ok (report, r')) : Ticked F b r t report r' := by
  cases t with
  | peerHealth now =>
    obtain ⟨⟨outcome, s⟩, hpass, h⟩ := bind_ok_iff.mp h
    rcases mapError_bind_pure hpass with ⟨a, hcall, rfl⟩ | ⟨e, hcall, rfl⟩
    · cases h
      exact .peerHealth hcall
    · cases h
      exact .peerHealth hcall
  | networkMap answers now order =>
    generalize hfetch : fetch F b.profile answers r.directories = fetched at h
    rw [tick, hfetch] at h
    obtain ⟨asked, result⟩ := fetched
    dsimp only at h
    obtain ⟨⟨outcome, s⟩, hpass, h⟩ := bind_ok_iff.mp h
    cases result with
    | error e =>
      cases hpass
      cases h
      exact .unfetched hfetch
    | ok map =>
      rcases mapError_bind_pure hpass with ⟨applied, hcall, rfl⟩ | ⟨e, hcall, rfl⟩
      · cases h
        cases applied with
        | true => exact .fetched hfetch hcall
        | false => exact .fetched hfetch hcall
      · cases h
        exact .fetched hfetch hcall

theorem Ticked.insensitive {I : PeerReconciler C → Prop} (hI : Insensitive I)
    (h : Ticked F b r t report r') (hr : I r) :
    (report.applied = none ∧ I r') ∨
      ∃ map r₀, report.applied = some map ∧ I r₀ ∧ Applied map r₀ r' ∧
        ∃ answers now order, t = .networkMap answers now order ∧
          fetch F b.profile answers r.directories = (report.asked, .ok map) := by
  cases h with
  | peerHealth call =>
    have hpost := hI.reconcilePeerHealth r hr _ _ call
    refine .inl ⟨rfl, ?_⟩
    revert hpost
    split
    · exact id
    · exact id
  | unfetched => exact .inl ⟨rfl, hr⟩
  | @fetched answers now order asked map outcome r' hfetch call =>
    have hpost := hI.reconcileNetworkMap r hr _ _ call
    cases outcome with
    | error e => exact .inl ⟨rfl, hpost⟩
    | ok applied =>
      cases applied with
      | false => exact .inl ⟨rfl, hpost⟩
      | true =>
        obtain ⟨r₀, hr₀, happlied⟩ := hpost
        exact .inr ⟨map, r₀, rfl, hr₀, happlied, answers, now, order, rfl, hfetch⟩

theorem Ticked.asked_servers (h : Ticked F b r t report r') :
    report.asked.map some <+: servers r.directories := by
  cases h with
  | peerHealth => exact List.nil_prefix
  | @unfetched answers _ _ _ _ hfetch =>
    have hprefix : (fetch F b.profile answers r.directories).1.map some <+: servers r.directories :=
      fetch_asked
    rwa [hfetch] at hprefix
  | @fetched answers _ _ _ _ _ _ hfetch =>
    have hprefix : (fetch F b.profile answers r.directories).1.map some <+: servers r.directories :=
      fetch_asked
    rwa [hfetch] at hprefix

theorem tick_records (hr : Records directories last r) (h : tick F b r t = .ok (report, r')) :
    report.asked.map some <+: servers directories ∧
      (report.applied = none ∧ Records directories last r' ∨
      ∃ map, report.applied = some map ∧ (∀ updatedAt ∈ last, updatedAt < map.updatedAt) ∧
        Records (map.peers.filter (·.isDirectory)) (some map.updatedAt) r' ∧
        ∃ answers now order, t = .networkMap answers now order ∧
          Served F b.profile answers 0 report.asked map) := by
  have hticked := tick_ticked h
  refine ⟨hr.1 ▸ hticked.asked_servers, ?_⟩
  rcases hticked.insensitive records_insensitive hr with
    hnone | ⟨map, r₀, hsome, hr₀, happlied, answers, now, order, ht, hfetch⟩
  · exact .inl hnone
  · refine .inr ⟨map, hsome, ?_, ⟨happlied.directories, happlied.last⟩, answers, now, order, ht,
      fetch_served hfetch⟩
    exact hr₀.2 ▸ happlied.newer

/-! ### Whole runs -/

def appliedMaps (reports : List Report) : List NetworkMap := reports.filterMap (·.applied)

def directoriesAfter (directories : List NetMap.Peer) (maps : List NetworkMap) : List NetMap.Peer :=
  maps.getLast?.elim directories fun map => map.peers.filter (·.isDirectory)

theorem appliedMaps_append_none {reports : List Report} (h : report.applied = none) :
    appliedMaps (reports ++ [report]) = appliedMaps reports := by
  simp [appliedMaps, h]

theorem appliedMaps_append_some {reports : List Report} (h : report.applied = some map) :
    appliedMaps (reports ++ [report]) = appliedMaps reports ++ [map] := by
  simp [appliedMaps, h]

structure Recorded (directories : List NetMap.Peer) (reports : List Report) (r : PeerReconciler C) :
    Prop where
  records : Records (directoriesAfter directories (appliedMaps reports))
    ((appliedMaps reports).getLast?.map (·.updatedAt)) r
  increasing : (appliedMaps reports).IsChain fun before after => before.updatedAt < after.updatedAt

theorem tick_recorded {reports : List Report} (hr : Recorded directories reports r)
    (h : tick F b r t = .ok (report, r')) : Recorded directories (reports ++ [report]) r' := by
  rcases (tick_records hr.records h).2 with ⟨hnone, hs⟩ | ⟨map, hsome, hnewer, hs, -⟩
  · refine ⟨?_, ?_⟩
    · rw [appliedMaps_append_none hnone]
      exact hs
    · rw [appliedMaps_append_none hnone]
      exact hr.increasing
  · refine ⟨?_, ?_⟩
    · rw [appliedMaps_append_some hsome, directoriesAfter, List.getLast?_concat]
      exact hs
    · rw [appliedMaps_append_some hsome, List.isChain_append]
      refine ⟨hr.increasing, List.isChain_singleton _, fun before hbefore after hafter => ?_⟩
      cases hafter
      exact hnewer _ (Option.mem_map_of_mem _ hbefore)

theorem run_recorded {client : C} {rng : Rng} {ticks : List (Tick E)} {reports : List Report}
    (hrun : Machine.run (tick F b) (new client directories rng) ticks = .ok (reports, r)) :
    Recorded directories reports r :=
  Machine.run_history_along (I := Recorded directories) [] (fun _ _ _ _ _ _ hr h => tick_recorded hr h)
    (Machine.along_of_forall (C := fun _ _ => True) fun _ _ _ => trivial) hrun
    ⟨⟨rfl, rfl⟩, List.isChain_nil⟩

/-- The loop asks the directories of the map that it applied last, in their order and no others, and
applies what the first of them to serve a map has served, if that is newer. -/
theorem run_follows_directories {client : C} {rng : Rng} {ticks : List (Tick E)}
    {reports : List Report}
    (hrun : Machine.run (tick F b) (new client directories rng) ticks = .ok (reports, r))
    (htick : tick F b r t = .ok (report, r')) :
    (appliedMaps (reports ++ [report])).Pairwise (·.updatedAt < ·.updatedAt) ∧
      report.asked.map some <+: servers (directoriesAfter directories (appliedMaps reports)) ∧
      ∀ map, report.applied = some map → ∃ answers now order, t = .networkMap answers now order ∧
        Served F b.profile answers 0 report.asked map := by
  have hr := run_recorded hrun
  obtain ⟨hasked, hpass⟩ := tick_records hr.records htick
  refine ⟨?_, hasked, fun map hmap => ?_⟩
  · have htrans : IsTrans NetworkMap fun before after => before.updatedAt < after.updatedAt :=
      ⟨fun _ _ _ => lt_trans⟩
    exact List.isChain_iff_pairwise.mp (tick_recorded hr htick).increasing
  · rcases hpass with ⟨hnone, -⟩ | ⟨map', hsome, -, -, hserved⟩
    · cases hnone.symm.trans hmap
    · cases hsome.symm.trans hmap
      exact hserved

/-- Nobody can be asked, because there is no directory or the first one has no address. -/
def Stranded (directories : List NetMap.Peer) : Prop := (servers directories).head?.join = none

theorem tick_stranded (hstranded : Stranded directories) (hr : Records directories last r)
    (h : tick F b r t = .ok (report, r')) :
    (report.asked = [] ∧ report.applied = none) ∧ Records directories last r' := by
  obtain ⟨hasked, hpass⟩ := tick_records hr h
  have hnobody : report.asked = [] := by
    cases hlist : report.asked with
    | nil => rfl
    | cons server others =>
      obtain ⟨rest, hservers⟩ := hasked
      rw [Stranded, ← hservers, hlist] at hstranded
      cases hstranded
  rcases hpass with ⟨hnone, hs⟩ | ⟨map, -, -, -, answers, now, order, -, failed, server, hserved, -⟩
  · exact ⟨⟨hnobody, hnone⟩, hs⟩
  · rw [hnobody] at hserved
    simp at hserved

/-- The loop never asks for a map again, whatever happens on the network and the device, if and only if
the directories that it has from the last map applied begin with one that has no address, or there
are none. -/
theorem run_locked_out_iff [Inhabited E] {client : C} {rng : Rng} {ticks : List (Tick E)}
    {reports : List Report}
    (hrun : Machine.run (tick F b) (new client directories rng) ticks = .ok (reports, r)) :
    (∀ (later : List (Tick E)) reports' r', Machine.run (tick F b) r later = .ok (reports', r') →
      ∀ report ∈ reports', report.asked = [] ∧ report.applied = none) ↔
      Stranded (directoriesAfter directories (appliedMaps reports)) := by
  have hr := (run_recorded hrun).records
  generalize (appliedMaps reports).getLast?.map (·.updatedAt) = last at hr
  constructor
  · intro hsilent
    let answers : Answers E := fun _ _ => .error default
    have htick : tick F b r (.networkMap answers 0 []) =
        .ok ({ asked := (fetch F b.profile answers r.directories).1,
               failure := some .fetchNetworkMap }, r) := by
      generalize hfetch : fetch F b.profile answers r.directories = fetched
      obtain ⟨asked, result⟩ := fetched
      rw [tick, hfetch]
      cases result with
      | error e => rfl
      | ok map =>
        obtain ⟨failed, server, -, -, hserved⟩ := fetch_served hfetch
        cases hserved
    have hasked : (fetch F b.profile answers r.directories).1 = [] :=
      (hsilent [.networkMap answers 0 []] _ _
        (Machine.run_cons_ok.mpr ⟨_, _, _, htick, rfl, rfl⟩) _ List.mem_cons_self).1
    have hhead : (fetch F b.profile answers r.directories).1.head? =
        (servers r.directories).head?.join := fetch_asked_head
    rw [hasked, hr.1] at hhead
    exact hhead.symm
  · intro hstranded later reports' r' hlater report hreport
    have hall := Machine.run_history_along
      (I := fun past s => (∀ report ∈ past, report.asked = [] ∧ report.applied = none) ∧
        Records (directoriesAfter directories (appliedMaps reports)) last s) []
      (fun past s t report s' _ hs h => ?_)
      (Machine.along_of_forall (C := fun _ _ => True) fun _ _ _ => trivial) hlater ⟨by simp, hr⟩
    · exact hall.1 report hreport
    · obtain ⟨hreport, hs'⟩ := tick_stranded hstranded hs.2 h
      refine ⟨fun report' hmem => ?_, hs'⟩
      rcases List.mem_append.mp hmem with hpast | hnew
      · exact hs.1 report' hpast
      · rw [List.mem_singleton.mp hnew]
        exact hreport

end PeerReconciler

end Tendrilix.Control

/-! ### A map without directories -/

namespace Tendrilix.Sample

open Control PeerReconciler
open NetMap (NetworkMap)

def directoryIp (n : ℕ) : IpAddr := .v4 (BitVec.ofNat 32 (0x0a000200 + n))

def directory (n : ℕ) : NetMap.Peer where
  id := Int64.ofNat n
  publicKey := (key n).toKeyBytes
  tunnelIp := some (directoryIp n)
  isDirectory := true
  routes := [⟨0, .direct (some (addr n))⟩]

def answersFrom (n : ℕ) (map : NetworkMap) : Answers Unit := fun _ server =>
  if server.host = directoryIp n then .ok (postcard.encode .alloc map) else .error ()

theorem first_second_lt : 1 < 1000 := by decide

theorem second_second_lt : 2 < 1000 := by decide

def namesThird : NetworkMap := ⟨instantAt 1 first_second_lt, [directory 3]⟩

def namesNobody : NetworkMap :=
  ⟨instantAt 2 second_second_lt, [{ directory 3 with isDirectory := false }]⟩

def startLoop : PeerReconciler FlakyDevice := new {} [directory 1, directory 2] ⟨fun _ => 0, 0⟩

theorem run_follows_directories_third :
    ∃ reports r report r', Machine.run (tick postcard build) startLoop
        [.networkMap (answersFrom 2 namesThird) 0 [], .peerHealth 10000] = .ok (reports, r) ∧
      tick postcard build r (.networkMap (answersFrom 3 namesNobody) 20000 []) = .ok (report, r') ∧
      report.applied = some namesNobody ∧
      (appliedMaps (reports ++ [report])).Pairwise (·.updatedAt < ·.updatedAt) ∧
      report.asked.map some <+:
        servers (directoriesAfter [directory 1, directory 2] (appliedMaps reports)) := by
  have hrun : okAnd (fun p => okAnd (fun q => decide (q.1.applied = some namesNobody))
        (tick postcard build p.2 (.networkMap (answersFrom 3 namesNobody) 20000 [])))
      (Machine.run (tick postcard build) startLoop
        [.networkMap (answersFrom 2 namesThird) 0 [], .peerHealth 10000]) = true := by
    decide +kernel
  obtain ⟨⟨reports, r⟩, hrun, htick⟩ := exists_of_okAnd hrun
  obtain ⟨⟨report, r'⟩, htick, happlied⟩ := exists_of_okAnd htick
  obtain ⟨hpairwise, hasked, -⟩ := run_follows_directories hrun htick
  exact ⟨reports, r, report, r', hrun, htick, of_decide_eq_true happlied, hpairwise, hasked⟩

instance (directories : List NetMap.Peer) : Decidable (Stranded directories) :=
  inferInstanceAs (Decidable (_ = _))

theorem run_locked_out_nobody :
    ∃ reports r, Machine.run (tick postcard build) startLoop
        [.networkMap (answersFrom 2 namesNobody) 0 []] = .ok (reports, r) ∧
      ∀ (later : List (Tick Unit)) reports' r', Machine.run (tick postcard build) r later =
        .ok (reports', r') → ∀ report ∈ reports', report.asked = [] ∧ report.applied = none := by
  have hrun : okAnd (fun p =>
      decide (Stranded (directoriesAfter [directory 1, directory 2] (appliedMaps p.1))))
      (Machine.run (tick postcard build) startLoop [.networkMap (answersFrom 2 namesNobody) 0 []]) =
        true := by
    decide +kernel
  obtain ⟨⟨reports, r⟩, hrun, hstranded⟩ := exists_of_okAnd hrun
  exact ⟨reports, r, hrun, (run_locked_out_iff hrun).mpr (of_decide_eq_true hstranded)⟩

end Tendrilix.Sample
