import Tendrilix.Device.Relaying
import Tendrilix.Device.TypeSeparation

/-!
# Envelopes in a network of relays

Any peer tables, relays in a circle among them: the hop limit bounds how often an envelope is
forwarded, and what is delivered in the end is the inner packet.
-/

namespace Tendrilix

open Noise Device

variable {K : Crypto} {N BYTES : ℕ}

namespace Noise.Relay

def hopsOf (plaintext : Bytes) : ℕ := (plaintext.getD 1 0).toNat

def onward (plaintext : Bytes) : Bytes :=
  match Envelope.parse plaintext with
  | .error _ => []
  | .ok e =>
    match e.decrementHopLimit with
    | .error _ => []
    | .ok e' => Session.padded e'.bytes

variable {plaintext bytes : Bytes} {e e' : Envelope}

theorem hopsOf_of_parse (h : Envelope.parse plaintext = .ok e) :
    hopsOf plaintext = e.hopLimit.toNat := by
  rw [Envelope.hopLimit, (Envelope.parse_ok h).1, hopsOf]

theorem onward_eq (hparse : Envelope.parse plaintext = .ok e)
    (hdecrement : e.decrementHopLimit = .ok e') : onward plaintext = Session.padded e'.bytes := by
  rw [onward, hparse]
  dsimp only
  rw [hdecrement]

theorem one_le_hopLimit (h : Envelope.parse plaintext = .ok e) : 1 ≤ e.hopLimit.toNat := by
  obtain ⟨hbytes, -, -, hlimit⟩ := Envelope.parse_ok h
  rw [Envelope.hopLimit, hbytes]
  exact Nat.one_le_iff_ne_zero.mpr fun hzero => hlimit (UInt8.toNat_inj.mp hzero)

theorem length_decremented_le (hparse : Envelope.parse plaintext = .ok e)
    (hdecrement : e.decrementHopLimit = .ok e') (hlen : plaintext.length + 32 ≤ maxPacketSize) :
    (Session.padded e'.bytes).length + 32 ≤ maxPacketSize := by
  have hset := (Envelope.decrementHopLimit_ok hdecrement).2.1
  have hpadded := Session.paddedLen_le_max e'.bytes.length
  have hmtu : mtu + 32 ≤ maxPacketSize := by decide
  rw [hset, List.length_set, (Envelope.parse_ok hparse).1] at hpadded
  rw [Session.length_padded, hset, List.length_set, (Envelope.parse_ok hparse).1]
  omega

theorem exists_buildEnvelope (destination : PublicKey) {inner : Bytes}
    (h : inner.length ≤ mtu + packetOverhead) : ∃ envelope,
    buildEnvelope maxPacketSize destination inner = .ok envelope ∧
      (Session.padded envelope).length + 32 ≤ maxPacketSize := by
  have hshort : inner.length ≤ 65535 := h.trans (by decide)
  have hsize : envelopeHeaderSize + inner.length + 32 ≤ maxPacketSize := by
    rw [maxPacketSize]
    rw [packetOverhead] at h ⊢
    omega
  have hbuild : buildEnvelope maxPacketSize destination inner = _ :=
    buildEnvelope_eq hshort (by omega)
  refine ⟨_, hbuild, ?_⟩
  have hpadded := Session.paddedLen_le_max (envelopeHeaderSize + inner.length)
  have hmtu : mtu + 32 ≤ maxPacketSize := by decide
  rw [Session.length_padded, length_buildEnvelope hbuild]
  omega

theorem onward_reads (hparse : Envelope.parse plaintext = .ok e)
    (hdecrement : e.decrementHopLimit = .ok e') :
    ∃ e'', Envelope.parse (onward plaintext) = .ok e'' ∧
      Reads e'' e.destination e.innerPacket (e.hopLimit - 1) ∧
      e''.hopLimit.toNat + 1 = e.hopLimit.toNat := by
  obtain ⟨e'', hparse'', hreads⟩ := parse_decremented hparse hdecrement
    (Bytes.zeros (Session.paddedLen e'.bytes.length - e'.bytes.length))
  obtain ⟨hlimit, -⟩ := Envelope.decrementHopLimit_ok hdecrement
  have hone : (1 : UInt8).toNat < e.hopLimit.toNat := hlimit
  refine ⟨e'', (onward_eq hparse hdecrement) ▸ hparse'', hreads, ?_⟩
  rw [hreads.hopLimit_eq, UInt8.toNat_sub_of_le _ _ (UInt8.le_of_lt hlimit), UInt8.toNat_one]
  rw [UInt8.toNat_one] at hone
  omega

end Noise.Relay

theorem Noise.messageTypeOf_relayData (s : Session) (src : Bytes) :
    messageTypeOf (s.datagram K MessageType.relayData src) = MessageType.relayData :=
  messageTypeOf_datagram s src (by decide)

def Device.Output.isForward : Output → Bool
  | .udp packet _ => messageTypeOf packet = MessageType.relayData
  | _ => false

inductive Place
  | underWay (datagram plaintext : Bytes)
  | delivered (packet : Bytes) (addr : SocketAddr)
  | lost

namespace Place

def after (datagram plaintext : Bytes) (again : Bool) : List Output → Place
  | [.udp packet addr] =>
    if messageTypeOf packet = MessageType.relayData then .underWay packet (Relay.onward plaintext)
    else .delivered packet addr
  | _ => if again then .underWay datagram plaintext else .lost

theorem after_forward (s : Session) (datagram plaintext src : Bytes) (again : Bool)
    (addr : SocketAddr) :
    after datagram plaintext again [.udp (s.datagram K MessageType.relayData src) addr] =
      .underWay (s.datagram K MessageType.relayData src) (Relay.onward plaintext) := by
  rw [after, if_pos (messageTypeOf_relayData s src)]

theorem after_deliver {packet : Bytes} (h : Relay.validateInnerPacket packet = .ok ())
    (datagram plaintext : Bytes) (again : Bool) (addr : SocketAddr) :
    after datagram plaintext again [.udp packet addr] = .delivered packet addr :=
  if_neg (Relay.validateInnerPacket_type h)

def hopsLeft : Place → ℕ
  | underWay _ plaintext => Relay.hopsOf plaintext - 1
  | _ => 0

def deliveriesLeft : Place → ℕ
  | underWay _ _ => 1
  | _ => 0

end Place

/-- Devices, and an envelope that one of them may have. -/
structure Network (ι : Type) (K : Crypto) (N BYTES : ℕ) where
  devices : ι → Device K N BYTES
  envelope : Place

namespace Network

variable {ι : Type} [DecidableEq ι]

inductive Act (ι : Type)
  | event (i : ι) (e : Event)
  | carry (i : ι) (src : SocketAddr) (again : Bool)

/-- What is sent for the envelope, and the network afterwards. -/
def step (net : Network ι K N BYTES) : Act ι → Call (List Output × Network ι K N BYTES)
  | .event i e => do
    let (_, d) ← (net.devices i).step e
    return ([], { net with devices := Function.update net.devices i d })
  | .carry i src again =>
    match net.envelope with
    | .underWay datagram plaintext =>
      if fits : datagram.length ≤ maxPacketSize then do
        let (outputs, d) ← (net.devices i).step (.udpPacket datagram fits src)
        return (outputs, ⟨Function.update net.devices i d,
          Place.after datagram plaintext again outputs⟩)
      else .ok ([], { net with envelope := .lost })
    | _ => .ok ([], net)

end Network

/-! ### How often an envelope is forwarded -/

inductive Keeps (K : Crypto) (plaintext : Bytes) : Output → Prop
  | forward {e e' : Relay.Envelope} {s : Session} {next : Bytes} {addr : SocketAddr}
      (parsed : Relay.Envelope.parse plaintext = .ok e)
      (reads : Relay.Envelope.parse (Session.padded next) = .ok e')
      (destination_eq : e'.destination = e.destination)
      (innerPacket_eq : e'.innerPacket = e.innerPacket) :
      Keeps K plaintext (.udp (s.datagram K MessageType.relayData next) addr)
  | deliver {e : Relay.Envelope} {addr : SocketAddr}
      (parsed : Relay.Envelope.parse plaintext = .ok e) :
      Keeps K plaintext (.udp e.innerPacket addr)

/-- The account of an envelope that was submitted with `plaintext`, after `outputs`. -/
structure Account (K : Crypto) (plaintext : Bytes) (outputs : List Output) (place : Place) :
    Prop where
  forwards : outputs.countP Output.isForward + place.hopsLeft ≤ max (Relay.hopsOf plaintext) 1 - 1
  deliveries : outputs.countP (!·.isForward) + place.deliveriesLeft ≤ 1
  keeps : ∀ o ∈ outputs, Keeps K plaintext o
  reads : ∀ datagram now, place = .underWay datagram now →
    (∃ p, parseIncomingPacket datagram = .ok (.relayData p)) ∧
      ∀ e', Relay.Envelope.parse now = .ok e' → ∃ e, Relay.Envelope.parse plaintext = .ok e ∧
        e'.destination = e.destination ∧ e'.innerPacket = e.innerPacket

section Account

variable {plaintext datagram now : Bytes} {past outputs : List Output} {d : Device K N BYTES}
  {submitter : PublicKey} {p : Data}

theorem Account.start (hparse : parseIncomingPacket datagram = .ok (.relayData p)) :
    Account K plaintext [] (.underWay datagram plaintext) where
  forwards := by
    rw [List.countP_nil, Place.hopsLeft]
    omega
  deliveries := le_rfl
  keeps _ h := absurd h List.not_mem_nil
  reads := by
    intro datagram' now hplace
    cases hplace
    exact ⟨⟨p, hparse⟩, fun e' h => ⟨e', h, rfl, rfl⟩⟩

theorem Account.lose {place : Place} (h : Account K plaintext past place) :
    Account K plaintext past .lost where
  forwards := (Nat.le_add_right _ _).trans h.forwards
  deliveries := (Nat.le_add_right _ _).trans h.deliveries
  keeps := h.keeps
  reads _ _ hplace := by cases hplace

theorem Account.silent (h : Account K plaintext past (.underWay datagram now)) (again : Bool) :
    Account K plaintext past (Place.after datagram now again []) := by
  cases again with
  | true => exact h
  | false => exact h.lose

theorem Account.relayed (h : Account K plaintext past (.underWay datagram now))
    (hrelayed : d.Relayed submitter now outputs) (again : Bool) :
    Account K plaintext (past ++ outputs) (Place.after datagram now again outputs) := by
  have hforwards := h.forwards
  have hdeliveries := h.deliveries
  have hreads := (h.reads datagram now rfl).2
  cases hrelayed with
  | dropped =>
    rw [List.append_nil]
    exact h.silent again
  | @forwarded e e' s addr parsed valid authorized decremented counter =>
    obtain ⟨e₀, hparse₀, hdestination, hinner⟩ := hreads e parsed
    obtain ⟨e'', hparse'', hreads'', hlimit⟩ := Relay.onward_reads parsed decremented
    have hforward : (Output.udp (s.datagram K MessageType.relayData e'.bytes) addr).isForward =
        true := decide_eq_true (messageTypeOf_relayData (K := K) s e'.bytes)
    rw [Place.hopsLeft, Relay.hopsOf_of_parse parsed] at hforwards
    rw [Place.deliveriesLeft] at hdeliveries
    rw [Place.after_forward]
    refine ⟨?_, ?_, ?_, ?_⟩
    · rw [List.countP_append, List.countP_singleton, if_pos hforward, Place.hopsLeft,
        Relay.hopsOf_of_parse hparse'']
      have hone := (Relay.Envelope.decrementHopLimit_ok decremented).1
      have hpos : 1 < e.hopLimit.toNat := hone
      omega
    · rw [List.countP_append, List.countP_singleton, hforward, Place.deliveriesLeft]
      exact hdeliveries
    · intro o ho
      rcases List.mem_append.mp ho with ho | ho
      · exact h.keeps o ho
      · obtain rfl := List.mem_singleton.mp ho
        refine .forward hparse₀ ((Relay.onward_eq parsed decremented) ▸ hparse'') ?_ ?_
        · rw [hreads''.destination_eq, hdestination]
        · rw [hreads''.innerPacket_eq, hinner]
    · intro datagram' now' hplace
      cases hplace
      refine ⟨⟨_, Session.parseIncomingPacket_relayData counter⟩, fun e₂ hparse₂ => ?_⟩
      cases hparse''.symm.trans hparse₂
      exact ⟨e₀, hparse₀, hreads''.destination_eq.trans hdestination,
        hreads''.innerPacket_eq.trans hinner⟩
  | @delivered e addr parsed valid authorized =>
    obtain ⟨e₀, hparse₀, hdestination, hinner⟩ := hreads e parsed
    have hforward : (Output.udp e.innerPacket addr).isForward = false :=
      decide_eq_false (Relay.validateInnerPacket_type valid)
    rw [Place.after_deliver valid]
    refine ⟨?_, ?_, ?_, ?_⟩
    · rw [List.countP_append, List.countP_singleton, hforward]
      exact (Nat.le_add_right _ _).trans hforwards
    · rw [List.countP_append, List.countP_singleton, hforward]
      exact hdeliveries
    · intro o ho
      rcases List.mem_append.mp ho with ho | ho
      · exact h.keeps o ho
      · obtain rfl := List.mem_singleton.mp ho
        rw [hinner]
        exact .deliver hparse₀
    · intro datagram' now' hplace
      cases hplace

end Account

/-- What a relay makes of an envelope: it delivers the inner packet, or passes on an envelope with
the same destination and inner packet and a hop limit that is lower by one. -/
inductive Hop (K : Crypto) (e : Relay.Envelope) : List Output → Prop
  | deliver {addr : SocketAddr} : Hop K e [.udp e.innerPacket addr]
  | forward {e' : Relay.Envelope} {s : Session} {next : Bytes} {addr : SocketAddr}
      (limit : 1 < e.hopLimit) (parsed : Relay.Envelope.parse (Session.padded next) = .ok e')
      (reads : Relay.Reads e' e.destination e.innerPacket (e.hopLimit - 1)) :
      Hop K e [.udp (s.datagram K MessageType.relayData next) addr]

theorem Device.Relayed.hop {d : Device K N BYTES} {submitter : PublicKey} {plaintext : Bytes}
    {outputs : List Output} (h : d.Relayed submitter plaintext outputs) :
    outputs = [] ∨ ∃ e, Relay.Envelope.parse plaintext = .ok e ∧
      d.forwardingAuthorizer submitter e.destination = true ∧
      messageTypeOf e.innerPacket ≠ MessageType.relayData ∧ Hop K e outputs := by
  cases h with
  | dropped => exact .inl rfl
  | forwarded parsed valid authorized decremented counter =>
    obtain ⟨e'', hparse'', hreads, -⟩ := Relay.onward_reads parsed decremented
    rw [Relay.onward_eq parsed decremented] at hparse''
    exact .inr ⟨_, parsed, authorized, Relay.validateInnerPacket_type valid,
      .forward (Relay.Envelope.decrementHopLimit_ok decremented).1 hparse'' hreads⟩
  | delivered parsed valid authorized =>
    exact .inr ⟨_, parsed, authorized, Relay.validateInnerPacket_type valid, .deliver⟩

theorem Device.handleUdpPacket_hop {d d' : Device K N BYTES} {datagram : Bytes} {addr : SocketAddr}
    {p : Data} {outputs : List Output} (hconnected : d.Connected)
    (hparse : parseIncomingPacket datagram = .ok (.relayData p))
    (hhandle : d.handleUdpPacket datagram addr = .ok (outputs, d')) :
    outputs = [] ∨ ∃ submitter plaintext e,
      d.peers.peerKeyByIndex p.receiverIdx = some submitter ∧
      d.opens (.relayData p) = some plaintext ∧ Relay.Envelope.parse plaintext = .ok e ∧
      d.forwardingAuthorizer submitter e.destination = true ∧
      messageTypeOf e.innerPacket ≠ MessageType.relayData ∧ Hop K e outputs := by
  rcases handleUdpPacket_relayed hparse hconnected hhandle with
    hnone | ⟨submitter, plaintext, hkey, hopens, hrelayed⟩
  · exact .inl hnone
  rcases hrelayed.hop with hnone | ⟨e, hparsed, hauthorized, htype, hhop⟩
  · exact .inl hnone
  · exact .inr ⟨submitter, plaintext, e, hkey, hopens, hparsed, hauthorized, htype, hhop⟩

theorem Keeps.built {destination : PublicKey} {dstLen : ℕ}
    {inner envelope rest packet : Bytes} {addr : SocketAddr}
    (h : Keeps K (envelope ++ rest) (.udp packet addr))
    (hbuild : Relay.buildEnvelope dstLen destination inner = .ok envelope)
    (htype : messageTypeOf packet ≠ MessageType.relayData) : packet = inner := by
  obtain ⟨e₀, hparse₀, hreads⟩ := Relay.parse_buildEnvelope hbuild rest
  cases h with
  | forward => exact absurd (messageTypeOf_relayData _ _) htype
  | deliver parsed =>
    cases hparse₀.symm.trans parsed
    exact hreads.innerPacket_eq

def Device.OpensOnly (d : Device K N BYTES) (datagram plaintext : Bytes) : Prop :=
  ∀ packet opened, parseIncomingPacket datagram = .ok packet → d.opens packet = some opened →
    opened = plaintext

namespace Network

variable {ι : Type} [DecidableEq ι] {net net' : Network ι K N BYTES} {acts : List (Act ι)}
  {outputs : List (List Output)}

/-- A device that gets the envelope has an established session with every next relay, and opens
nothing but what was sealed. -/
def Guarded (net : Network ι K N BYTES) : Act ι → Prop
  | .event _ _ => True
  | .carry i _ _ => (net.devices i).Connected ∧ ∀ datagram plaintext,
      net.envelope = .underWay datagram plaintext → (net.devices i).OpensOnly datagram plaintext

theorem step_account {plaintext : Bytes} {past sent : List Output} {act : Act ι}
    (hguarded : net.Guarded act) (h : Account K plaintext past net.envelope)
    (hstep : net.step act = .ok (sent, net')) :
    Account K plaintext (past ++ sent) net'.envelope := by
  cases act with
  | event i e =>
    obtain ⟨⟨others, d⟩, -, hstep⟩ := bind_ok_iff.mp hstep
    cases hstep
    rwa [List.append_nil]
  | carry i src again =>
    obtain ⟨hconnected, hopens⟩ := hguarded
    rw [step] at hstep
    split at hstep
    · rename_i datagram now hplace
      rw [hplace] at h
      split at hstep
      · rename_i fits
        obtain ⟨⟨outputs, d⟩, hhandle, hstep⟩ := bind_ok_iff.mp hstep
        cases hstep
        obtain ⟨p, hparse⟩ := (h.reads datagram now rfl).1
        rcases handleUdpPacket_relayed hparse hconnected hhandle with
          rfl | ⟨submitter, opened, -, hopened, hrelayed⟩
        · rw [List.append_nil]
          exact h.silent again
        · obtain rfl := hopens datagram now hplace _ opened hparse hopened
          exact h.relayed hrelayed again
      · cases hstep
        rw [List.append_nil]
        exact h.lose
    · cases hstep
      rwa [List.append_nil]

theorem run_account {plaintext datagram : Bytes} {p : Data}
    (hplace : net.envelope = .underWay datagram plaintext)
    (hparse : parseIncomingPacket datagram = .ok (.relayData p))
    (hguarded : Machine.Along step Guarded net acts)
    (hrun : Machine.run step net acts = .ok (outputs, net')) :
    Account K plaintext outputs.flatten net'.envelope := by
  refine Machine.run_history_along (I := fun past net => Account K plaintext past.flatten net.envelope)
    [] ?_ hguarded hrun (hplace ▸ Account.start hparse)
  intro past net₁ act sent net₂ hguarded hinv hstep
  rw [List.flatten_append, List.flatten_singleton]
  exact step_account hguarded hinv hstep

/-! ### Chains of relays -/

structure Ready (net : Network ι K N BYTES) (i : ι) (destination : PublicKey) : Prop where
  pooled : ∃ items, (net.devices i).Pooled items
  connected : (net.devices i).Connected
  expects : ∀ datagram plaintext, net.envelope = .underWay datagram plaintext →
    ∃ (s : Session) (src : Bytes) (submitter : PublicKey),
      datagram = s.datagram K MessageType.relayData src ∧ plaintext = Session.padded src ∧
      (net.devices i).Expects s submitter ∧
      (net.devices i).forwardingAuthorizer submitter destination = true

/-- `n` relays get the envelope one after the other. All but the last one have a relay for the
destination, and the last one has its address. -/
inductive Chain (destination : PublicKey) (addr : SocketAddr) :
    Network ι K N BYTES → ℕ → List (Act ι) → Prop
  | event {net net' : Network ι K N BYTES} {n : ℕ} {i : ι} {e : Event} {outputs : List Output}
      {acts : List (Act ι)} (handled : net.step (.event i e) = .ok (outputs, net'))
      (rest : Chain destination addr net' n acts) : Chain destination addr net n (.event i e :: acts)
  | last {net : Network ι K N BYTES} {i : ι} {src : SocketAddr} (ready : net.Ready i destination)
      (route : (net.devices i).routeOf destination = some (none, some addr)) :
      Chain destination addr net 1 [.carry i src false]
  | relay {net : Network ι K N BYTES} {n : ℕ} {i : ι} {src hop : SocketAddr} {relay : PublicKey}
      {endpoint : Option SocketAddr} {further : Option PublicKey} {acts : List (Act ι)}
      (ready : net.Ready i destination)
      (route : (net.devices i).routeOf destination = some (some relay, endpoint))
      (next : (net.devices i).routeOf relay = some (further, some hop))
      (rest : ∀ outputs net', net.step (.carry i src false) = .ok (outputs, net') →
        Chain destination addr net' n acts) :
      Chain destination addr net (n + 1) (.carry i src false :: acts)

section Chain

variable {destination : PublicKey} {addr src : SocketAddr} {n : ℕ} {i : ι}
  {datagram plaintext inner : Bytes} {e : Relay.Envelope}

theorem step_event {e : Event} {sent : List Output}
    (h : net.step (.event i e) = .ok (sent, net')) : net'.envelope = net.envelope := by
  obtain ⟨⟨others, d⟩, -, h⟩ := bind_ok_iff.mp h
  cases h
  rfl

theorem step_devices_ne {again : Bool} {sent : List Output} {j : ι} (hj : j ≠ i)
    (h : net.step (.carry i src again) = .ok (sent, net')) : net'.devices j = net.devices j := by
  rw [step] at h
  split at h
  · split at h
    · obtain ⟨⟨outputs, d⟩, -, h⟩ := bind_ok_iff.mp h
      cases h
      exact Function.update_of_ne hj _ _
    · cases h
      rfl
  · cases h
    rfl

theorem step_lost (h : net.envelope = .lost) (i : ι) (src : SocketAddr) (again : Bool) :
    net.step (.carry i src again) = .ok ([], net) := by
  rw [step, h]

theorem step_carry {sent : List Output} {d : Device K N BYTES}
    (hplace : net.envelope = .underWay datagram plaintext) (hfits : datagram.length ≤ maxPacketSize)
    (hhandle : (net.devices i).handleUdpPacket datagram src.normalize = .ok (sent, d))
    (again : Bool) : net.step (.carry i src again) = .ok (sent, ⟨Function.update net.devices i d,
      Place.after datagram plaintext again sent⟩) := by
  rw [step, hplace]
  dsimp only
  rw [dif_pos hfits, Device.step, hhandle]
  rfl

theorem Chain.pos (h : Chain destination addr net n acts) : 0 < n := by
  induction h with
  | event _ _ ih => exact ih
  | last => exact Nat.one_pos
  | relay => exact Nat.succ_pos _

theorem Chain.lost (h : Chain destination addr net n acts) (hlost : net.envelope = .lost) :
    ∃ outputs net', Machine.run step net acts = .ok (outputs, net') ∧ net'.envelope = .lost := by
  induction h with
  | event handled rest ih =>
    obtain ⟨outputs, net', hrun, hend⟩ := ih ((step_event handled).trans hlost)
    exact ⟨_, net', Machine.run_cons_ok.mpr ⟨_, _, _, handled, hrun, rfl⟩, hend⟩
  | @last net i src ready route =>
    exact ⟨_, _, Machine.run_cons_ok.mpr ⟨_, _, _, step_lost hlost i src false, rfl, rfl⟩, hlost⟩
  | @relay net n i src hop relay endpoint further acts ready route next rest ih =>
    have hstep := step_lost hlost i src false
    obtain ⟨outputs, net', hrun, hend⟩ := ih _ _ hstep hlost
    exact ⟨_, net', Machine.run_cons_ok.mpr ⟨_, _, _, hstep, hrun, rfl⟩, hend⟩

omit [DecidableEq ι] in
theorem Ready.handleUdpPacket (hK : K.Lawful) (h : net.Ready i destination)
    (hplace : net.envelope = .underWay datagram plaintext)
    (hlen : plaintext.length + 32 ≤ maxPacketSize) (src : SocketAddr) :
    datagram.length ≤ maxPacketSize ∧ ∃ (d : Device K N BYTES) (submitter : PublicKey),
      (net.devices i).handleUdpPacket datagram src = d.forwardEnvelope submitter plaintext ∧
      d.forwardingAuthorizer submitter destination = true ∧ d.Connected ∧
      (∀ key, d.routeOf key = (net.devices i).routeOf key) ∧ ∃ items, d.Pooled items := by
  obtain ⟨items, hpooled⟩ := h.pooled
  obtain ⟨s, bytes, submitter, rfl, rfl, hexpects, hauthorized⟩ := h.expects _ _ hplace
  rw [Session.length_padded] at hlen
  have hroom : 32 + Session.paddedLen bytes.length ≤ maxPacketSize := by omega
  obtain ⟨d, hhandle, hconnected, hmoves, hitems⟩ :=
    hexpects.handleUdpPacket hK hpooled h.connected hroom src
  refine ⟨(Session.length_datagram K s _ bytes).trans_le hroom, d, submitter, hhandle, ?_,
    hconnected, fun key => hmoves.routeOf key, hitems⟩
  rw [hmoves.authorizer, hauthorized]

theorem Chain.arrives (hK : K.Lawful) (h : Chain destination addr net n acts)
    (hvalid : Relay.validateInnerPacket inner = .ok ())
    (hplace : net.envelope = .underWay datagram plaintext)
    (hparse : Relay.Envelope.parse plaintext = .ok e) (hdestination : e.destination = destination)
    (hinner : e.innerPacket = inner) (hlen : plaintext.length + 32 ≤ maxPacketSize) :
    ∃ outputs net', Machine.run step net acts = .ok (outputs, net') ∧
      net'.envelope = if n ≤ e.hopLimit.toNat then .delivered inner addr else .lost := by
  induction h generalizing datagram plaintext e with
  | event handled rest ih =>
    obtain ⟨outputs, net', hrun, hend⟩ :=
      ih ((step_event handled).trans hplace) hparse hdestination hinner hlen
    exact ⟨_, net', Machine.run_cons_ok.mpr ⟨_, _, _, handled, hrun, rfl⟩, hend⟩
  | @last net i src ready route =>
    subst hdestination hinner
    obtain ⟨hfits, d, submitter, hhandle, hauthorized, -, hroutes, -⟩ :=
      ready.handleUdpPacket hK hplace hlen src.normalize
    rw [forwardEnvelope_delivers hparse hvalid hauthorized ((hroutes _).trans route)] at hhandle
    have hstep := step_carry hplace hfits hhandle false
    refine ⟨_, _, Machine.run_cons_ok.mpr ⟨_, _, _, hstep, rfl, rfl⟩, ?_⟩
    rw [if_pos (Relay.one_le_hopLimit hparse)]
    exact Place.after_deliver hvalid datagram plaintext false addr
  | @relay net n i src hop relay endpoint further acts ready route next rest ih =>
    subst hdestination hinner
    obtain ⟨hfits, d, submitter, hhandle, hauthorized, hconnected, hroutes, items, hpooled⟩ :=
      ready.handleUdpPacket hK hplace hlen src.normalize
    have hroute := (hroutes _).trans route
    by_cases hlimit : e.hopLimit ≤ 1
    · obtain ⟨d', hforward⟩ :=
        forwardEnvelope_exhausted hparse hvalid hauthorized hpooled hroute hlimit
      have hstep := step_carry hplace hfits (hhandle.trans hforward) false
      have hrest := rest _ _ hstep
      obtain ⟨outputs, net', hrun, hend⟩ := hrest.lost rfl
      refine ⟨_, net', Machine.run_cons_ok.mpr ⟨_, _, _, hstep, hrun, rfl⟩, ?_⟩
      have hpos := hrest.pos
      have hone : e.hopLimit.toNat ≤ 1 := hlimit
      rw [hend, if_neg (by omega)]
    · have hlimit' := UInt8.not_le.mp hlimit
      obtain ⟨e', hdecrement⟩ : ∃ e', e.decrementHopLimit = .ok e' := ⟨_, if_neg hlimit⟩
      obtain ⟨e'', hparse'', hreads, hcount⟩ := Relay.onward_reads hparse hdecrement
      have honward := Relay.onward_eq hparse hdecrement
      have hlen' : (Relay.onward plaintext).length + 32 ≤ maxPacketSize := by
        rw [honward]
        exact Relay.length_decremented_le hparse hdecrement hlen
      have hroom : 32 + Session.paddedLen e'.bytes.length ≤ maxPacketSize := by
        rw [honward, Session.length_padded] at hlen'
        omega
      obtain ⟨s, d', hcounter, hforward⟩ := forwardEnvelope_forwards hparse hvalid hauthorized
        hpooled hroute hconnected ⟨further, (hroutes _).trans next⟩ hdecrement hroom
      have hstep := step_carry hplace hfits (hhandle.trans hforward) false
      have hsent := Place.after_forward (K := K) s datagram plaintext e'.bytes false hop
      obtain ⟨outputs, net', hrun, hend⟩ := ih _ _ hstep hsent hparse'' hreads.destination_eq
        hreads.innerPacket_eq hlen'
      refine ⟨_, net', Machine.run_cons_ok.mpr ⟨_, _, _, hstep, hrun, rfl⟩, ?_⟩
      rw [hend, ← hcount]
      simp only [Nat.add_le_add_iff_right]

theorem Chain.delivers_iff (hK : K.Lawful) (h : Chain destination addr net n acts)
    (hvalid : Relay.validateInnerPacket inner = .ok ()) {envelope : Bytes}
    (hbuild : Relay.buildEnvelope maxPacketSize destination inner = .ok envelope)
    (hsize : (Session.padded envelope).length + 32 ≤ maxPacketSize)
    (hplace : net.envelope = .underWay datagram (Session.padded envelope)) :
    ∃ outputs net', Machine.run step net acts = .ok (outputs, net') ∧
      (net'.envelope = .delivered inner addr ↔ n ≤ Relay.defaultHopLimit.toNat) := by
  obtain ⟨e, hparse, hreads⟩ := Relay.parse_buildEnvelope hbuild _
  obtain ⟨outputs, net', hrun, hend⟩ := h.arrives hK hvalid hplace hparse hreads.destination_eq
    hreads.innerPacket_eq hsize
  refine ⟨outputs, net', hrun, ?_⟩
  rw [hend, hreads.hopLimit_eq]
  split
  · rename_i hle
    exact ⟨fun _ => hle, fun _ => rfl⟩
  · rename_i hle
    exact ⟨fun h => (by cases h), fun h => absurd h hle⟩

end Chain

/-! ### Every envelope -/

/-- On every hop the destination and the inner packet stay, and the hop limit goes down by one. So
an envelope is forwarded less often than its hop limit says, and its inner packet is delivered at
most once. A chain of relays delivers a new envelope unless it is longer than the hop limit. -/
theorem relaying_ends (hK : K.Lawful) :
    (∀ (d d' : Device K N BYTES) (datagram : Bytes) (addr : SocketAddr) (p : Data)
      (outputs : List Output), d.Connected →
      parseIncomingPacket datagram = .ok (.relayData p) →
      d.handleUdpPacket datagram addr = .ok (outputs, d') →
      outputs = [] ∨ ∃ submitter plaintext e,
        d.peers.peerKeyByIndex p.receiverIdx = some submitter ∧
        d.opens (.relayData p) = some plaintext ∧ Relay.Envelope.parse plaintext = .ok e ∧
        d.forwardingAuthorizer submitter e.destination = true ∧
        messageTypeOf e.innerPacket ≠ MessageType.relayData ∧ Hop K e outputs) ∧
    (∀ (net net' : Network ι K N BYTES) (acts : List (Act ι)) (outputs : List (List Output))
      (datagram plaintext : Bytes) (p : Data), net.envelope = .underWay datagram plaintext →
      parseIncomingPacket datagram = .ok (.relayData p) →
      Machine.Along step Guarded net acts → Machine.run step net acts = .ok (outputs, net') →
      outputs.flatten.countP Output.isForward ≤ max (Relay.hopsOf plaintext) 1 - 1 ∧
      outputs.flatten.countP (!·.isForward) ≤ 1 ∧
      (∀ o ∈ outputs.flatten, Keeps K plaintext o) ∧
      ∀ dstLen destination inner envelope rest,
        Relay.buildEnvelope dstLen destination inner = .ok envelope →
        plaintext = envelope ++ rest → ∀ packet addr, .udp packet addr ∈ outputs.flatten →
        messageTypeOf packet ≠ MessageType.relayData → packet = inner) ∧
    ∀ (destination : PublicKey) (inner : Bytes), Relay.validateInnerPacket inner = .ok () →
      inner.length ≤ mtu + packetOverhead → ∃ envelope,
      Relay.buildEnvelope maxPacketSize destination inner = .ok envelope ∧
      ∀ (net : Network ι K N BYTES) (n : ℕ) (acts : List (Act ι)) (addr : SocketAddr)
        (datagram : Bytes), net.envelope = .underWay datagram (Session.padded envelope) →
        Chain destination addr net n acts →
        ∃ outputs net', Machine.run step net acts = .ok (outputs, net') ∧
          (net'.envelope = .delivered inner addr ↔ n ≤ Relay.defaultHopLimit.toNat) := by
  refine ⟨?_, ?_, ?_⟩
  · intro d d' datagram addr p outputs hconnected hparse hhandle
    exact handleUdpPacket_hop hconnected hparse hhandle
  · intro net net' acts outputs datagram plaintext p hplace hparse hguarded hrun
    have haccount := run_account hplace hparse hguarded hrun
    refine ⟨(Nat.le_add_right _ _).trans haccount.forwards,
      (Nat.le_add_right _ _).trans haccount.deliveries, haccount.keeps, ?_⟩
    rintro dstLen destination inner envelope rest hbuild rfl packet addr hsent htype
    exact (haccount.keeps _ hsent).built hbuild htype
  · intro destination inner hvalid hlen
    obtain ⟨envelope, hbuild, hsize⟩ := Relay.exists_buildEnvelope destination hlen
    refine ⟨envelope, hbuild, fun net n acts addr datagram hplace hchain => ?_⟩
    exact hchain.delivers_iff hK hvalid hbuild hsize hplace

end Network

namespace Sample

open Network

def firstPeers : List PeerConfig :=
  [peerConfig 1 [] none, peerConfig 9 lan none, peerConfig 3 [] (some (key 9))]

def secondPeers : List PeerConfig := [peerConfig 7 lan none, peerConfig 3 [] none]

def firstEvents : List Event :=
  [received (initiationOf 1 7) (addr 1), .tunPacket innerPacket length_innerPacket_le]

def greeting : Bytes := (datagrams 7 firstPeers firstEvents).getD 1 []

def answer : Bytes := (datagrams 9 secondPeers [received greeting (addr 7)]).getD 0 []

def submission (first second : Device Crypto.sample 8 8192) (s : Session) :
    Network Bool Crypto.sample 8 8192 where
  devices i := bif i then second else first
  envelope := .underWay (s.datagram Crypto.sample MessageType.relayData (envelopeFor 3 letter))
    (Session.padded (envelopeFor 3 letter))

def expectsFresh (d : Device Crypto.sample 8 8192) (s : Session) (submitter : PublicKey) : Bool :=
  s.sendingIndex < 2 ^ 32 && s.sendingKeyCounter < rejectAfterMessages &&
    d.peers.peerKeyByIndex s.sendingIndex = some submitter &&
    (d.peers.peerByKey submitter).any fun peer =>
      (peer.tunnel.sessions (slotOf s.sendingIndex)).any fun r =>
        r.receivingIndex = s.sendingIndex && r.receivingKey = s.sendingKey &&
          r.receivingKeyCounter = {}

def isConnected (d : Device Crypto.sample 8 8192) : Bool :=
  d.peers.peerKeys.all fun destination => (d.peers.peerByKey destination).all fun peer =>
    peer.relay.all fun relay => (d.peers.peerByKey relay).all fun relayPeer =>
      relayPeer.tunnel.currentSession.isSome && (List.finRange 3).all fun i =>
        (relayPeer.tunnel.sessions i).all fun s => s.sendingKeyCounter < rejectAfterMessages

def opensAt (d : Device Crypto.sample 8 8192) (s : Session) (src : Bytes) : Bool :=
  okAnd (fun packet => (d.opens packet).all fun opened => opened = Session.padded src)
    (parseIncomingPacket (s.datagram Crypto.sample MessageType.relayData src))

def takes (d : Device Crypto.sample 8 8192) (s : Session) (submitter : PublicKey) (src : Bytes) :
    Bool :=
  expectsFresh d s submitter && isConnected d && opensAt d s src &&
    d.forwardingAuthorizer submitter (key 3)

def carries (net : Network Bool Crypto.sample 8 8192) (s : Session) (src : Bytes) : Bool :=
  match net.envelope with
  | .underWay datagram plaintext =>
    datagram = s.datagram Crypto.sample MessageType.relayData src && plaintext = Session.padded src
  | _ => false

def passesOn (first second : Device Crypto.sample 8 8192) (s : Session) : Bool :=
  takes first s (key 1) (envelopeFor 3 letter) &&
    first.routeOf (key 3) = some (some (key 9), some (addr 3)) &&
    first.routeOf (key 9) = some (none, some (addr 9)) &&
    second.routeOf (key 3) = some (none, some (addr 3)) &&
    (first.peers.peerByKey (key 9)).any fun peer => peer.tunnel.currentSession.any fun next =>
      okAnd (fun (_, net) =>
          carries net next (Relay.onward (Session.padded (envelopeFor 3 letter))) &&
          takes second next (key 7) (Relay.onward (Session.padded (envelopeFor 3 letter))))
        ((submission first second s).step (.carry false (addr 1) false))

theorem expects_of_fresh {d : Device Crypto.sample 8 8192} {s : Session} {submitter : PublicKey}
    (h : expectsFresh d s submitter = true) : d.Expects s submitter := by
  simp only [expectsFresh, Bool.and_eq_true, decide_eq_true_eq] at h
  obtain ⟨⟨⟨hindex, hcounter⟩, hattributed⟩, hany⟩ := h
  obtain ⟨peer, hpeer, hany⟩ := (Option.any_eq_true _ _).mp hany
  obtain ⟨r, hr, hsession⟩ := (Option.any_eq_true _ _).mp hany
  simp only [Bool.and_eq_true, decide_eq_true_eq] at hsession
  obtain ⟨⟨hreceiving, hkey⟩, hnew⟩ := hsession
  obtain ⟨seen, hheard, hbelow⟩ := Session.unheard_of_new (s := s) hnew
  have hacc : ReplayWindow.Acceptable seen s.sendingKeyCounter :=
    Tunn.acceptable_of_window (fun hmem => absurd (hbelow _ hmem) (Nat.lt_irrefl _))
      fun c hc => (hbelow c hc).le.trans (Nat.le_add_right _ _)
  exact ⟨hindex, hcounter, hattributed, peer, seen, hpeer, ⟨r, hr, hreceiving, hkey, hheard⟩, hacc⟩

theorem connected_of_isConnected {d : Device Crypto.sample 8 8192} (h : isConnected d = true) :
    d.Connected := by
  intro destination peer relay relayPeer hpeer hrelay hrelayPeer
  have hpeers := List.all_eq_true.mp h destination (Bounded.mem_of_lookup hpeer)
  have hrelays := (Option.all_eq_true _ _).mp hpeers peer hpeer
  have hnext := (Option.all_eq_true _ _).mp hrelays relay hrelay
  have hestablished := (Option.all_eq_true _ _).mp hnext relayPeer hrelayPeer
  obtain ⟨hcurrent, hcounters⟩ := Bool.and_eq_true_iff.mp hestablished
  refine ⟨Option.isSome_iff_ne_none.mp hcurrent, fun i s hs => ?_⟩
  have hslot := List.all_eq_true.mp hcounters i (List.mem_finRange i)
  exact of_decide_eq_true ((Option.all_eq_true _ _).mp hslot s hs)

theorem opensOnly_of_opensAt {d : Device Crypto.sample 8 8192} {s : Session} {src : Bytes}
    (h : opensAt d s src = true) : d.OpensOnly
      (s.datagram Crypto.sample MessageType.relayData src) (Session.padded src) := by
  intro packet opened hparse hopens
  obtain ⟨packet', hparse', hall⟩ := exists_of_okAnd h
  cases hparse'.symm.trans hparse
  exact of_decide_eq_true ((Option.all_eq_true _ _).mp hall opened hopens)

theorem ready_of_takes (net : Network Bool Crypto.sample 8 8192) (i : Bool) {s : Session}
    {submitter : PublicKey} {src : Bytes} (hpooled : ∃ items, (net.devices i).Pooled items)
    (hcarries : carries net s src = true) (htakes : takes (net.devices i) s submitter src = true) :
    net.Ready i (key 3) ∧ ∀ addr again, net.Guarded (.carry i addr again) := by
  simp only [takes, Bool.and_eq_true] at htakes
  obtain ⟨⟨⟨hexpects, hconnected⟩, hopens⟩, hauthorized⟩ := htakes
  have hplace : net.envelope = .underWay (s.datagram Crypto.sample MessageType.relayData src)
      (Session.padded src) := by
    rw [carries] at hcarries
    split at hcarries
    · rename_i datagram plaintext hplace
      simp only [Bool.and_eq_true, decide_eq_true_eq] at hcarries
      rw [hplace, hcarries.1, hcarries.2]
    · cases hcarries
  constructor
  · refine ⟨hpooled, connected_of_isConnected hconnected, fun datagram plaintext h => ?_⟩
    cases hplace.symm.trans h
    exact ⟨s, src, submitter, rfl, rfl, expects_of_fresh hexpects, hauthorized⟩
  · refine fun addr again => ⟨connected_of_isConnected hconnected, fun datagram plaintext h => ?_⟩
    cases hplace.symm.trans h
    exact opensOnly_of_opensAt hopens

theorem relaying_ends_two_relays :
    ∃ (net net' : Network Bool Crypto.sample 8 8192) (acts : List (Act Bool))
      (outputs : List (List Output)),
      Network.Chain (key 3) (addr 3) net 2 acts ∧
      Machine.Along Network.step Network.Guarded net acts ∧
      Machine.run Network.step net acts = .ok (outputs, net') ∧
      net'.envelope = .delivered letter (addr 3) ∧
      outputs.flatten.countP Output.isForward ≤ 7 ∧
      outputs.flatten.countP (!·.isForward) ≤ 1 := by
  have hsample : runAnd 7 firstPeers (firstEvents ++ [received answer (addr 9)]) (fun (_, first) =>
      runAnd 9 secondPeers [received greeting (addr 7)] fun (_, second) =>
        (sessionWith 1 7 firstPeers).any fun s => passesOn first second s) = true := by
    decide +kernel
  obtain ⟨start₁, sent₁, first, hnew₁, hrun₁, hp⟩ := exists_of_runAnd hsample
  obtain ⟨start₂, sent₂, second, hnew₂, hrun₂, hp⟩ := exists_of_runAnd hp
  obtain ⟨s, -, hpass⟩ := (Option.any_eq_true _ _).mp hp
  simp only [passesOn, Bool.and_eq_true, decide_eq_true_eq] at hpass
  obtain ⟨⟨⟨⟨htakes, hroute⟩, hnext⟩, hlast⟩, hpass⟩ := hpass
  obtain ⟨peer, -, hpass⟩ := (Option.any_eq_true _ _).mp hpass
  obtain ⟨next, -, hpass⟩ := (Option.any_eq_true _ _).mp hpass
  obtain ⟨⟨outputs₁, net₁⟩, hstep, hpass⟩ := exists_of_okAnd hpass
  obtain ⟨hcarries₁, htakes₁⟩ := Bool.and_eq_true_iff.mp hpass
  have hsecond : net₁.devices true = second :=
    Network.step_devices_ne (by decide) hstep
  rw [← hsecond] at htakes₁ hlast
  obtain ⟨hready, hguarded⟩ := ready_of_takes (submission first second s) false
    (Reachable.pooled ⟨_, _, _, _, _, _, _, _, _, hnew₁, hrun₁⟩) (by simp [carries, submission])
    htakes
  obtain ⟨hready₁, hguarded₁⟩ := ready_of_takes net₁ true
    (hsecond ▸ Reachable.pooled ⟨_, _, _, _, _, _, _, _, _, hnew₂, hrun₂⟩) hcarries₁ htakes₁
  have hchain : Network.Chain (key 3) (addr 3) (submission first second s) 2
      [.carry false (addr 1) false, .carry true (addr 7) false] := by
    refine .relay hready hroute hnext fun outputs net h => ?_
    cases hstep.symm.trans h
    exact .last hready₁ hlast
  have halong : Machine.Along Network.step Network.Guarded (submission first second s)
      [.carry false (addr 1) false, .carry true (addr 7) false] := by
    rw [Machine.Along, hstep]
    refine ⟨hguarded _ _, hguarded₁ _ _, ?_⟩
    split
    · trivial
    · trivial
  obtain ⟨-, hruns, hchains⟩ := @relaying_ends Crypto.sample 8 8192 Bool _ Crypto.sample_lawful
  obtain ⟨envelope, hbuild, hdelivers⟩ := hchains (key 3) letter (by decide) (by decide)
  have henvelope : envelopeFor 3 letter = envelope := by
    rw [envelopeFor, hbuild]
    rfl
  obtain ⟨outputs, net', hrun, hend⟩ :=
    hdelivers (submission first second s) 2 _ (addr 3) _ (by rw [← henvelope]; rfl) hchain
  have hcounter := (expects_of_fresh (Bool.and_eq_true_iff.mp (Bool.and_eq_true_iff.mp
    (Bool.and_eq_true_iff.mp htakes).1).1).1).counter
  obtain ⟨hforwards, hdeliveries, -⟩ := hruns _ net' _ outputs _ _ _ rfl
    (Session.parseIncomingPacket_relayData hcounter) halong hrun
  exact ⟨_, net', _, outputs, hchain, halong, hrun, hend.mpr (by decide), hforwards, hdeliveries⟩

end Sample

end Tendrilix
