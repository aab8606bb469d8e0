import Tendrilix.Codec
import Tendrilix.Control.Reconciler

/-!
# Network maps on the wire

A network map in a format that is not human readable, in which a timestamp is its whole seconds and
a key its 32 bytes. The reconciler compares the timestamps that it reads.
-/

namespace Tendrilix

open NetMap (DateTime NetworkMap Route RouteKind PeerId)

/-- The format behind the serializer, with the library's encodings of addresses. An address comes
back as far as these keep it. -/
structure WireFormat where
  bool : Codec Bool
  u8 : Codec UInt8
  u16 : Codec UInt16
  i64 : Codec Int64
  optionTag : Codec Bool
  variant : Codec ℕ
  length : Codec ℕ
  ipAddr : Codec IpAddr
  socketAddr : Codec SocketAddr
  kept : SocketAddr → SocketAddr
  bool_yields : ∀ b, bool.Yields b b
  u8_yields : ∀ n, u8.Yields n n
  u16_yields : ∀ n, u16.Yields n n
  i64_yields : ∀ n, i64.Yields n n
  optionTag_yields : ∀ b, optionTag.Yields b b
  variant_yields : ∀ n, variant.Yields n n
  length_yields : ∀ n, length.Yields n n
  ipAddr_yields : ∀ a, ipAddr.Yields a a
  socketAddr_yields : ∀ a, socketAddr.Yields a (kept a)

namespace WireFormat

variable (F : WireFormat) (profile : Profile)

def mapTimestamp : Codec DateTime :=
  F.i64.convert (fun timestamp => Int64.ofInt timestamp.seconds)
    fun seconds => DateTime.fromTimestamp seconds.toInt

def keyBytes : Codec KeyBytes := (Codec.tuple 32 F.u8).convert (·.bytes) KeyBytes.ofBytes

def routeKind : Codec RouteKind :=
  (Codec.either F.variant (Codec.option F.optionTag F.socketAddr) F.i64).convert
    (fun
      | .direct endpoint => .inl endpoint
      | .relay id => .inr id)
    fun
      | .inl endpoint => some (.direct endpoint)
      | .inr id => some (.relay id)

def route : Codec Route :=
  (F.u16.pair F.routeKind).convert (fun r => (r.priority, r.kind)) fun (priority, kind) =>
    some ⟨priority, kind⟩

def peer : Codec NetMap.Peer :=
  (F.i64.pair (F.keyBytes.pair ((Codec.option F.optionTag F.ipAddr).pair
    (F.bool.pair (Codec.list profile.maxRoutes F.length F.route))))).convert
    (fun p => (p.id, p.publicKey, p.tunnelIp, p.isDirectory, p.routes))
    fun (id, publicKey, tunnelIp, isDirectory, routes) =>
      some ⟨id, publicKey, tunnelIp, isDirectory, routes⟩

def networkMap : Codec NetworkMap :=
  (F.mapTimestamp.pair (Codec.list profile.maxPeers F.length (F.peer profile))).convert
    (fun map => (map.updatedAt, map.peers)) fun (updatedAt, peers) => some ⟨updatedAt, peers⟩

def encode (map : NetworkMap) : Bytes := (F.networkMap profile).write map

def decode (bytes : Bytes) : Option NetworkMap := ((F.networkMap profile).read bytes).map Prod.fst

/-! ### What comes back -/

def wholeSeconds (t : DateTime) : DateTime :=
  ⟨t.seconds, 0, t.seconds_mem, DateTime.zero_nanos_lt, fun hleap => absurd hleap (by decide)⟩

def receivedRoute (r : Route) : Route :=
  { r with kind := match r.kind with
    | .direct endpoint => .direct (endpoint.map F.kept)
    | .relay id => .relay id }

def receivedPeer (p : NetMap.Peer) : NetMap.Peer := { p with routes := p.routes.map F.receivedRoute }

def received (map : NetworkMap) : NetworkMap where
  updatedAt := wholeSeconds map.updatedAt
  peers := map.peers.map F.receivedPeer

structure Fits (map : NetworkMap) : Prop where
  peers : ∀ room ∈ profile.maxPeers, map.peers.length ≤ room
  routes : ∀ p ∈ map.peers, ∀ room ∈ profile.maxRoutes, p.routes.length ≤ room

def endpoints (map : NetworkMap) : List SocketAddr :=
  (map.peers.flatMap (·.routes)).filterMap fun r =>
    match r.kind with
    | .direct endpoint => endpoint
    | .relay _ => none

variable {F profile}

theorem mapTimestamp_yields (t : DateTime) : F.mapTimestamp.Yields t (wholeSeconds t) := by
  refine Codec.Yields.convert (F.i64_yields _) ?_
  obtain ⟨hlow, hhigh⟩ := t.seconds_mem
  rw [Int64.toInt_ofInt_of_le (by omega) (by omega), DateTime.fromTimestamp, dif_pos t.seconds_mem]
  rfl

theorem keyBytes_yields (key : KeyBytes) : F.keyBytes.Yields key key := by
  have htuple : (Codec.tuple 32 F.u8).Yields key.bytes (key.bytes.map id) :=
    .tuple key.length_eq fun n _ => F.u8_yields n
  rw [List.map_id] at htuple
  apply Codec.Yields.convert htuple
  rw [KeyBytes.ofBytes, dif_pos key.length_eq]

theorem route_yields (r : Route) : F.route.Yields r (F.receivedRoute r) := by
  have hkind : F.routeKind.Yields r.kind (F.receivedRoute r).kind := by
    obtain ⟨priority, kind⟩ := r
    cases kind with
    | direct endpoint =>
      have hendpoint : (Codec.option F.optionTag F.socketAddr).Yields endpoint (endpoint.map F.kept) :=
        .option F.optionTag_yields endpoint fun a _ => F.socketAddr_yields a
      exact Codec.Yields.convert (Codec.Yields.inl (F.variant_yields 0) hendpoint) rfl
    | relay id =>
      exact Codec.Yields.convert (Codec.Yields.inr (F.variant_yields 1) (F.i64_yields id)) rfl
  exact Codec.Yields.convert ((F.u16_yields r.priority).pair hkind) rfl

theorem peer_yields {p : NetMap.Peer} (hfits : ∀ room ∈ profile.maxRoutes, p.routes.length ≤ room) :
    (F.peer profile).Yields p (F.receivedPeer p) := by
  have hip : (Codec.option F.optionTag F.ipAddr).Yields p.tunnelIp (p.tunnelIp.map id) :=
    .option F.optionTag_yields p.tunnelIp fun a _ => F.ipAddr_yields a
  rw [Option.map_id] at hip
  have hroutes : (Codec.list profile.maxRoutes F.length F.route).Yields p.routes
      (p.routes.map F.receivedRoute) := .list F.length_yields hfits fun r _ => route_yields r
  exact Codec.Yields.convert ((F.i64_yields p.id).pair ((keyBytes_yields p.publicKey).pair (hip.pair
    ((F.bool_yields p.isDirectory).pair hroutes)))) rfl

theorem decode_encode {map : NetworkMap} (hfits : Fits profile map) :
    F.decode profile (F.encode profile map) = some (F.received map) := by
  have hpeers : (Codec.list profile.maxPeers F.length (F.peer profile)).Yields map.peers
      (map.peers.map F.receivedPeer) :=
    .list F.length_yields hfits.peers fun p hp => peer_yields (hfits.routes p hp)
  have hmap : (F.networkMap profile).Yields map (F.received map) :=
    Codec.Yields.convert ((mapTimestamp_yields map.updatedAt).pair hpeers) rfl
  have hread := hmap []
  rw [List.append_nil] at hread
  rw [decode, encode, hread]
  rfl

theorem wholeSeconds_eq_iff {t : DateTime} : wholeSeconds t = t ↔ t.nanos = 0 := by
  obtain ⟨seconds, nanos, hmem, hlt, hleap⟩ := t
  rw [wholeSeconds, DateTime.mk.injEq]
  exact ⟨fun h => h.2.symm, fun h => ⟨rfl, h.symm⟩⟩

theorem map_eq_self_iff {α : Type} {f : α → α} {items : List α} :
    items.map f = items ↔ ∀ a ∈ items, f a = a := by
  conv_lhs => rhs; rw [← List.map_id items]
  exact List.map_inj_left

theorem received_eq_iff {map : NetworkMap} :
    F.received map = map ↔ map.updatedAt.nanos = 0 ∧ ∀ a ∈ endpoints map, F.kept a = a := by
  have hroute : ∀ r : Route, F.receivedRoute r = r ↔ ∀ a, r.kind = .direct (some a) → F.kept a = a := by
    intro r
    obtain ⟨priority, kind⟩ := r
    cases kind with
    | relay id => simp [receivedRoute]
    | direct endpoint =>
      cases endpoint with
      | none => simp [receivedRoute]
      | some a => simp [receivedRoute]
  have hpeer : ∀ p : NetMap.Peer, F.receivedPeer p = p ↔ ∀ r ∈ p.routes, F.receivedRoute r = r := by
    intro p
    obtain ⟨id, publicKey, tunnelIp, isDirectory, routes⟩ := p
    rw [receivedPeer, NetMap.Peer.mk.injEq]
    simp only [true_and, map_eq_self_iff]
  obtain ⟨updatedAt, peers⟩ := map
  rw [received, NetworkMap.mk.injEq, wholeSeconds_eq_iff, map_eq_self_iff]
  refine and_congr_right fun _ => ?_
  simp only [hpeer, hroute, endpoints, List.mem_filterMap, List.mem_flatMap]
  constructor
  · intro h a ⟨r, ⟨p, hp, hr⟩, ha⟩
    refine h p hp r hr a ?_
    cases hkind : r.kind with
    | direct endpoint =>
      rw [hkind] at ha
      dsimp only at ha
      rw [ha]
    | relay id =>
      rw [hkind] at ha
      cases ha
  · intro h p hp r hr a hkind
    exact h a ⟨r, ⟨p, hp, hr⟩, by rw [hkind]⟩

end WireFormat

/-! ### Stale maps -/

namespace Control.PeerReconciler

open Attempt

variable {C : Type} [DeviceClient C] {b : Build} {map : NetworkMap} {now : ℕ} {order : List PublicKey}
  {r r' : PeerReconciler C}

theorem step_stale (h : r.isStale map = true) :
    step b r (.networkMap map now order) = .ok (.ok false, r) := by
  change reconcileNetworkMap b map now order r = _
  rw [reconcileNetworkMap, bind_of_ok (rfl : get r = .ok (.ok r, r)), if_pos h]
  rfl

theorem step_fresh (h : r.isStale map = false) {applied : Bool}
    (hrun : step b r (.networkMap map now order) = .ok (.ok applied, r')) :
    applied = true ∧ r'.lastAppliedMapUpdatedAt = some map.updatedAt := by
  have htriple : Triple (· = r) (reconcileNetworkMap b map now order)
      (fun applied r' => applied = true ∧ r'.lastAppliedMapUpdatedAt = some map.updatedAt)
      (fun _ => True) := by
    apply Triple.bind Triple.get
    intro s
    split
    · rename_i hstale
      intro t ht
      obtain ⟨rfl, rfl⟩ := ht
      rw [h] at hstale
      cases hstale
    · refine Triple.bind Triple.true fun _ => Triple.bind Triple.true fun _ => ?_
      refine Triple.bind Triple.true fun desired => Triple.bind Triple.true fun actual => ?_
      refine Triple.bind Triple.true fun _ => Triple.bind Triple.true fun _ => ?_
      refine Triple.bind Triple.true fun directories => ?_
      refine Triple.bind (Triple.modify (R := fun _ r' =>
        r'.lastAppliedMapUpdatedAt = some map.updatedAt) fun _ _ => rfl) fun _ => ?_
      exact Triple.pure true fun _ hs => ⟨rfl, hs⟩
  exact htriple r rfl _ _ hrun

theorem step_rejects_iff {before after : NetworkMap} {now' : ℕ} {order' : List PublicKey}
    (happlied : step b r (.networkMap before now order) = .ok (.ok true, r')) :
    (∃ r'', step b r' (.networkMap after now' order') = .ok (.ok false, r'')) ↔
      after.updatedAt ≤ before.updatedAt := by
  have hlast : r'.lastAppliedMapUpdatedAt = some before.updatedAt := by
    cases hstale : r.isStale before with
    | true =>
      rw [step_stale hstale] at happlied
      cases happlied
    | false => exact (step_fresh hstale happlied).2
  have hiff : r'.isStale after = true ↔ after.updatedAt ≤ before.updatedAt := by
    rw [isStale, hlast]
    simp
  rw [← hiff]
  constructor
  · intro ⟨r'', hrun⟩
    by_contra hfresh
    have happlied' := (step_fresh (by simpa using hfresh) hrun).1
    cases happlied'
  · exact fun hstale => ⟨r', step_stale hstale⟩

end Control.PeerReconciler

namespace WireFormat

open Control PeerReconciler

variable {F : WireFormat} {profile : Profile}

theorem wholeSeconds_le_iff {before after : DateTime} (h : before < after) :
    wholeSeconds after ≤ wholeSeconds before ↔ after.seconds = before.seconds := by
  have hlt : before.seconds < after.seconds ∨
      before.seconds = after.seconds ∧ before.nanos < after.nanos := Prod.Lex.toLex_lt_toLex.mp h
  have hle : wholeSeconds after ≤ wholeSeconds before ↔
      after.seconds < before.seconds ∨ after.seconds = before.seconds ∧ 0 ≤ 0 :=
    Prod.Lex.toLex_le_toLex
  rw [hle]
  omega

/-- A map comes back as it was if its timestamp has whole seconds, and the later of two maps is
rejected if they are from the same second. -/
theorem wire_iff :
    (∀ map, Fits profile map → (F.decode profile (F.encode profile map) = some map ↔
      map.updatedAt.nanos = 0 ∧ ∀ a ∈ endpoints map, F.kept a = a)) ∧
    ∀ before after, Fits profile before → Fits profile after → before.updatedAt < after.updatedAt →
      ∃ before' after', F.decode profile (F.encode profile before) = some before' ∧
        F.decode profile (F.encode profile after) = some after' ∧
        ∀ (C : Type) [DeviceClient C] (b : Build) (r r' : PeerReconciler C) (now now' : ℕ)
          (order order' : List PublicKey),
          step b r (.networkMap before' now order) = .ok (.ok true, r') →
            ((∃ r'', step b r' (.networkMap after' now' order') = .ok (.ok false, r'')) ↔
              after.updatedAt.seconds = before.updatedAt.seconds) := by
  constructor
  · intro map hfits
    rw [decode_encode hfits, Option.some.injEq, received_eq_iff]
  · intro before after hbefore hafter hlt
    refine ⟨_, _, decode_encode hbefore, decode_encode hafter, ?_⟩
    intro C _ b r r' now now' order order' happlied
    rw [step_rejects_iff happlied]
    exact wholeSeconds_le_iff hlt

end WireFormat

end Tendrilix

/-! ### Two maps within a second -/

namespace Tendrilix.Sample

open NetMap (DateTime NetworkMap)

def writeVarint : ℕ → ℕ → Bytes
  | 0, n => [UInt8.ofNat (n % 128)]
  | fuel + 1, n =>
    if n < 128 then [UInt8.ofNat n] else UInt8.ofNat (n % 128 + 128) :: writeVarint fuel (n / 128)

def readVarint : Bytes → Option (ℕ × Bytes)
  | [] => none
  | byte :: bytes =>
    if byte.toNat < 128 then some (byte.toNat, bytes)
    else (readVarint bytes).map fun (n, bytes) => (byte.toNat - 128 + 128 * n, bytes)

def varint : Codec ℕ := ⟨fun n => writeVarint n.log2 n, readVarint⟩

theorem readVarint_writeVarint {fuel n : ℕ} (h : n < 128 ^ (fuel + 1)) (rest : Bytes) :
    readVarint (writeVarint fuel n ++ rest) = some (n, rest) := by
  induction fuel generalizing n with
  | zero =>
    have hbyte : (UInt8.ofNat (n % 128)).toNat = n := by
      rw [UInt8.toNat_ofNat']
      omega
    have hn : n < 128 := by omega
    rw [writeVarint, List.cons_append, readVarint, hbyte, if_pos hn]
    rfl
  | succ fuel ih =>
    rw [writeVarint]
    by_cases hn : n < 128
    · have hbyte : (UInt8.ofNat n).toNat = n := by
        rw [UInt8.toNat_ofNat']
        omega
      rw [if_pos hn, List.cons_append, readVarint, hbyte, if_pos hn]
      rfl
    · have hbyte : (UInt8.ofNat (n % 128 + 128)).toNat = n % 128 + 128 := by
        rw [UInt8.toNat_ofNat']
        omega
      have hrest : n / 128 < 128 ^ (fuel + 1) := by
        rw [Nat.div_lt_iff_lt_mul (by decide), ← pow_succ]
        exact h
      rw [if_neg hn, List.cons_append, readVarint, hbyte, if_neg (by omega), ih hrest]
      simp only [Option.map_some, Option.some.injEq, Prod.mk.injEq, and_true]
      omega

theorem varint_yields (n : ℕ) : varint.Yields n n := by
  intro rest
  apply readVarint_writeVarint
  calc n < 2 ^ (n.log2 + 1) := Nat.lt_log2_self
    _ ≤ 128 ^ (n.log2 + 1) := Nat.pow_le_pow_left (by decide) _

def byte : Codec UInt8 where
  write n := [n]
  read
    | [] => none
    | n :: bytes => some (n, bytes)

theorem byte_yields (n : UInt8) : byte.Yields n n := fun _ => rfl

def bool : Codec Bool := byte.convert (fun b => if b then 1 else 0) fun n =>
  if n = 0 then some false else if n = 1 then some true else none

theorem bool_yields (b : Bool) : bool.Yields b b := by
  refine Codec.Yields.convert (byte_yields _) ?_
  cases b <;> rfl

def zigzag (n : ℤ) : ℕ := if 0 ≤ n then 2 * n.toNat else 2 * (-n).toNat - 1

def unzigzag (n : ℕ) : ℤ := if n % 2 = 0 then n / 2 else -((n + 1) / 2 : ℕ)

theorem unzigzag_zigzag (n : ℤ) : unzigzag (zigzag n) = n := by
  rw [unzigzag, zigzag]
  split <;> split <;> omega

def bits (width w : ℕ) : Codec (BitVec w) :=
  (Codec.tuple width byte).convert (fun a => Bytes.toBe width a.toNat) fun bytes =>
    some (BitVec.ofNat w (Bytes.ofBe bytes))

theorem bits_yields {width w : ℕ} (hw : 8 * width = w) (a : BitVec w) : (bits width w).Yields a a := by
  have htuple : (Codec.tuple width byte).Yields (Bytes.toBe width a.toNat)
      ((Bytes.toBe width a.toNat).map id) :=
    .tuple (Bytes.length_toBe width _) fun n _ => byte_yields n
  rw [List.map_id] at htuple
  refine Codec.Yields.convert htuple ?_
  have hlt : a.toNat < 256 ^ width := by
    have hpow : 2 ^ w = 256 ^ width := by
      rw [← hw, pow_mul]
      rfl
    exact a.isLt.trans_eq hpow
  rw [Bytes.ofBe_toBe hlt, BitVec.ofNat_toNat, BitVec.setWidth_eq]

theorem ipv4_yields (a : Ipv4Addr) : (bits 4 32).Yields a a := bits_yields (by decide) a

theorem ipv6_yields (a : Ipv6Addr) : (bits 16 128).Yields a a := bits_yields (by decide) a

def ipAddr : Codec IpAddr :=
  (Codec.either varint (bits 4 32) (bits 16 128)).convert
    (fun
      | .v4 a => .inl a
      | .v6 a => .inr a)
    fun
      | .inl a => some (.v4 a)
      | .inr a => some (.v6 a)

theorem ipAddr_yields (a : IpAddr) : ipAddr.Yields a a := by
  cases a with
  | v4 a =>
    have h : (Codec.either varint (bits 4 32) (bits 16 128)).Yields (.inl a) (.inl a) :=
      .inl (varint_yields 0) (ipv4_yields a)
    exact Codec.Yields.convert h rfl
  | v6 a =>
    have h : (Codec.either varint (bits 4 32) (bits 16 128)).Yields (.inr a) (.inr a) :=
      .inr (varint_yields 1) (ipv6_yields a)
    exact Codec.Yields.convert h rfl

def socketAddr : Codec SocketAddr :=
  (Codec.either varint ((bits 4 32).pair varint) ((bits 16 128).pair varint)).convert
    (fun
      | .v4 a port => .inl (a, port)
      | .v6 a port _ _ => .inr (a, port))
    fun
      | .inl (a, port) => some (.v4 a port)
      | .inr (a, port) => some (.v6 a port 0 0)

def keptAddr : SocketAddr → SocketAddr
  | .v4 a port => .v4 a port
  | .v6 a port _ _ => .v6 a port 0 0

theorem socketAddr_yields (a : SocketAddr) : socketAddr.Yields a (keptAddr a) := by
  cases a with
  | v4 a port =>
    have h : (Codec.either varint ((bits 4 32).pair varint) ((bits 16 128).pair varint)).Yields
        (.inl (a, port)) (.inl (a, port)) :=
      .inl (varint_yields 0) ((ipv4_yields a).pair (varint_yields port))
    exact Codec.Yields.convert h rfl
  | v6 a port flowinfo scopeId =>
    have h : (Codec.either varint ((bits 4 32).pair varint) ((bits 16 128).pair varint)).Yields
        (.inr (a, port)) (.inr (a, port)) :=
      .inr (varint_yields 1) ((ipv6_yields a).pair (varint_yields port))
    exact Codec.Yields.convert h rfl

/-- Postcard, with the encodings that serde has for addresses. The flow information and the scope of
an IPv6 address are not written. -/
def postcard : WireFormat where
  bool := bool
  u8 := byte
  u16 := varint.convert UInt16.toNat fun n => if n < 2 ^ 16 then some (UInt16.ofNat n) else none
  i64 := varint.convert (fun n => zigzag n.toInt) fun n =>
    if n < 2 ^ 64 then some (Int64.ofInt (unzigzag n)) else none
  optionTag := bool
  variant := varint
  length := varint
  ipAddr := ipAddr
  socketAddr := socketAddr
  kept := keptAddr
  bool_yields := bool_yields
  u8_yields := byte_yields
  u16_yields n := by
    refine Codec.Yields.convert (varint_yields _) ?_
    rw [if_pos n.toNat_lt, UInt16.ofNat_toNat]
  i64_yields n := by
    refine Codec.Yields.convert (varint_yields _) ?_
    have hlow := n.le_toInt
    have hhigh := n.toInt_lt
    rw [if_pos (by rw [zigzag]; split <;> omega), unzigzag_zigzag, Int64.ofInt_toInt]
  optionTag_yields := bool_yields
  variant_yields := varint_yields
  length_yields := varint_yields
  ipAddr_yields := ipAddr_yields
  socketAddr_yields := socketAddr_yields

open Control PeerReconciler

def wireMap (seconds nanos : ℕ) (hseconds : seconds < 10 ^ 10) (hnanos : nanos < 10 ^ 9) : NetworkMap where
  updatedAt := ⟨seconds, nanos, by omega, by omega, fun hleap => absurd hleap (by omega)⟩
  peers := [⟨2, (key 2).toKeyBytes, some (.v4 0x0a000202#32), false,
    [⟨0, .direct (some (addr 2))⟩, ⟨1, .relay 7⟩]⟩]

def onTheSecond : NetworkMap := wireMap 1700000000 0 (by decide) (by decide)

def atTwoTenths : NetworkMap := wireMap 1700000000 200000000 (by decide) (by decide)

def atSevenTenths : NetworkMap := wireMap 1700000000 700000000 (by decide) (by decide)

def inTheNextSecond : NetworkMap := wireMap 1700000001 500000000 (by decide) (by decide)

theorem fits_alloc (map : NetworkMap) : WireFormat.Fits .alloc map :=
  ⟨fun _ h => (nomatch h), fun _ _ _ h => (nomatch h)⟩

theorem wire_iff_next_second :
    postcard.decode .alloc (postcard.encode .alloc onTheSecond) = some onTheSecond ∧
    ∃ before' after', postcard.decode .alloc (postcard.encode .alloc onTheSecond) = some before' ∧
      postcard.decode .alloc (postcard.encode .alloc inTheNextSecond) = some after' ∧
      ∀ (C : Type) [DeviceClient C] (b : Build) (r r' : PeerReconciler C) (now now' : ℕ)
        (order order' : List PublicKey), step b r (.networkMap before' now order) = .ok (.ok true, r') →
        ¬∃ r'', step b r' (.networkMap after' now' order') = .ok (.ok false, r'') := by
  have hwire := @WireFormat.wire_iff postcard .alloc
  refine ⟨(hwire.1 onTheSecond (fits_alloc _)).mpr (by decide +kernel), ?_⟩
  obtain ⟨before', after', hbefore, hafter, hrejects⟩ :=
    hwire.2 _ _ (fits_alloc onTheSecond) (fits_alloc inTheNextSecond) (by decide +kernel)
  refine ⟨before', after', hbefore, hafter, ?_⟩
  intro C _ b r r' now now' order order' happlied
  rw [hrejects C b r r' now now' order order' happlied]
  decide

theorem same_second_rejected :
    ∃ before' after' r r', atTwoTenths.updatedAt < atSevenTenths.updatedAt ∧
      postcard.decode .alloc (postcard.encode .alloc atTwoTenths) = some before' ∧
      before' ≠ atTwoTenths ∧
      postcard.decode .alloc (postcard.encode .alloc atSevenTenths) = some after' ∧
      step build (new ({} : FlakyDevice) [] ⟨fun _ => 0, 0⟩) (.networkMap before' 0 []) =
        .ok (.ok true, r) ∧
      step build r (.networkMap after' 0 []) = .ok (.ok false, r') := by
  have hrun : okAnd (fun p => decide (p.1 = .ok true) &&
      okAnd (fun q => decide (q.1 = .ok false)) (step build p.2 (.networkMap onTheSecond 0 [])))
      (step build (new ({} : FlakyDevice) [] ⟨fun _ => 0, 0⟩) (.networkMap onTheSecond 0 [])) = true := by
    decide +kernel
  obtain ⟨⟨o, r⟩, happlied, hrejected⟩ := exists_of_okAnd hrun
  rw [Bool.and_eq_true, decide_eq_true_eq] at hrejected
  dsimp only at hrejected
  obtain ⟨rfl, hrejected⟩ := hrejected
  obtain ⟨⟨o', r'⟩, hrejected, ho'⟩ := exists_of_okAnd hrejected
  obtain rfl := of_decide_eq_true ho'
  exact ⟨onTheSecond, onTheSecond, r, r', by decide +kernel, by decide +kernel, by decide +kernel,
    by decide +kernel, happlied, hrejected⟩

end Tendrilix.Sample
