import Tendrilix.Device.Commands
import Tendrilix.Noise.TunnelQueue

/-!
# The queues of a device

The peers of a device keep their pending packets in one pool. An event moves the packets of the
queues it touches and leaves the cells of all others alone. A peer that is removed takes its queue
along and leaves the cells behind.
-/

namespace Tendrilix

open IntrusiveQueue Noise

variable {K : Crypto} {N BYTES : ℕ}

theorem TunnelCall.queues {t t' : Tunn K} {w w' : World K N BYTES} (h : TunnelCall t w t' w') :
    Tunn.Queues (fun _ _ => True) t w t' w' := by
  cases h with
  | dropExpired call => exact (Tunn.dropExpiredQueuedPackets_queues call).mono fun _ _ _ => trivial
  | encapsulate call => exact (Tunn.encapsulateWithType_queues call).mono fun _ _ _ => trivial
  | flush call => exact (Tunn.flushQueuedPacket_queues call).mono fun _ _ _ => trivial
  | timers call => exact (Tunn.updateTimers_queues call).mono fun _ _ _ => trivial
  | receive call => exact (Tunn.handleVerifiedPacket_sameQueue call).queues _
  | receiveRelay call => exact (Tunn.handleVerifiedRelayPacket_sameQueue call _).queues _

def queueIn (peer : Option (Peer K)) : PacketQueue := peer.elim {} (·.tunnel.packetQueue)

namespace Device

variable {d d' d₀ : Device K N BYTES} {items : PublicKey → List (ℕ × QueuedPacket)}

def queueOf (d : Device K N BYTES) (key : PublicKey) : PacketQueue :=
  queueIn (d.peers.peerByKey key)

theorem queueOf_of_peer {key : PublicKey} {peer : Peer K}
    (h : d.peers.peerByKey key = some peer) : d.queueOf key = peer.tunnel.packetQueue := by
  rw [queueOf, h]
  rfl

structure Pooled (d : Device K N BYTES) (items : PublicKey → List (ℕ × QueuedPacket)) : Prop where
  wf : d.world.pool.WF
  family : Family d.world.pool.view d.queueOf items
  bounded : ∀ key, (items key).length ≤ maxPendingPackets

def Orphan (d : Device K N BYTES) (items : PublicKey → List (ℕ × QueuedPacket)) (handle : ℕ) :
    Prop :=
  d.world.pool.view handle ≠ none ∧ ∀ key, handle ∉ handles (items key)

theorem Pooled.congr (h : d.Pooled items) (hqueue : d'.queueOf = d.queueOf)
    (hpool : d'.world.pool = d.world.pool) : d'.Pooled items := by
  refine ⟨hpool ▸ h.wf, ?_, h.bounded⟩
  rw [hqueue, hpool]
  exact h.family

theorem Orphan.congr {handle : ℕ} (hpool : d'.world.pool = d.world.pool) :
    d'.Orphan items handle ↔ d.Orphan items handle := by
  rw [Orphan, Orphan, hpool]

theorem Pooled.nil_of_not_configured (h : d.Pooled items) {key : PublicKey}
    (hkey : d.peers.peerByKey key = none) : items key = [] := by
  have hchain := (h.family.holds key).chain
  rw [queueOf, hkey] at hchain
  exact hchain.eq_nil

theorem Pooled.setTunnel (h : d.Pooled items) {key : PublicKey} {peer : Peer K}
    (hpeer : d.peers.peerByKey key = some peer) {t : Tunn K} {w : World K N BYTES}
    {P : MessageType → Bytes → Prop} (hcall : Tunn.Queues P peer.tunnel d.world t w) :
    ∃ items', (d.setTunnel key peer t w).Pooled (Function.update items key items') ∧
      IntrusiveQueue.Moves d.world.pool.view w.pool.view (items key) items' ∧
      ∀ v ∈ items'.map Prod.snd, v ∈ (items key).map Prod.snd ∨ P v.packetType v.data := by
  have hholds := h.family.holds key
  rw [queueOf_of_peer hpeer] at hholds
  obtain ⟨items', hmoved, hlen, hknown⟩ := hcall (items key) h.wf hholds (h.bounded key)
  refine ⟨items', ⟨hmoved.wf, ?_, fun k => ?_⟩, hmoved.moves, hknown⟩
  · have hqueue : (d.setTunnel key peer t w).queueOf =
        Function.update d.queueOf key t.packetQueue := by
      funext k
      by_cases hk : k = key
      · subst hk
        rw [Function.update_self, queueOf_of_peer (setTunnel_peerByKey hpeer t w)]
      · rw [Function.update_of_ne hk]
        exact congrArg queueIn (Bounded.lookup_replace_ne _ hk)
    rw [hqueue]
    exact h.family.move hmoved.moves hmoved.holds
  · by_cases hk : k = key
    · subst hk
      rwa [Function.update_self]
    · rw [Function.update_of_ne hk]
      exact h.bounded k

theorem orphan_iff_of_moves {key : PublicKey} {items' : List (ℕ × QueuedPacket)} (handle : ℕ)
    (h : IntrusiveQueue.Moves d.world.pool.view d'.world.pool.view (items key) items') :
    d'.Orphan (Function.update items key items') handle ↔ d.Orphan items handle := by
  constructor
  · intro ⟨hlive, hout⟩
    have hnew : handle ∉ handles items' := by
      have hkey := hout key
      rwa [Function.update_self] at hkey
    have hold : handle ∉ handles (items key) := fun hmem => hlive (h.freed handle hmem hnew)
    refine ⟨(h.outside handle hold hnew) ▸ hlive, fun k => ?_⟩
    by_cases hk : k = key
    · rwa [hk]
    · have hother := hout k
      rwa [Function.update_of_ne hk] at hother
  · intro ⟨hlive, hout⟩
    have hold := hout key
    have hnew : handle ∉ handles items' := fun hmem => hlive (h.fresh handle hmem hold)
    refine ⟨(h.outside handle hold hnew).symm ▸ hlive, fun k => ?_⟩
    by_cases hk : k = key
    · subst hk
      rwa [Function.update_self]
    · rw [Function.update_of_ne hk]
      exact hout k

/-! ### Moves and commands -/

def Follows (d : Device K N BYTES) (items : PublicKey → List (ℕ × QueuedPacket))
    (d' : Device K N BYTES) : Prop :=
  ∃ items', d'.Pooled items' ∧ ∀ handle, d'.Orphan items' handle ↔ d.Orphan items handle

theorem Follows.of_same (h : d.Pooled items) (hqueue : d'.queueOf = d.queueOf)
    (hpool : d'.world.pool = d.world.pool) : d.Follows items d' :=
  ⟨items, h.congr hqueue hpool, fun _ => Orphan.congr hpool⟩

theorem Move.follows {roams : Prop} (h : Move roams d d') (hpooled : d.Pooled items) :
    d.Follows items d' := by
  cases h with
  | read | count => exact .of_same hpooled rfl rfl
  | tunnel configured call =>
    obtain ⟨items', hpooled', hmoves, -⟩ := hpooled.setTunnel configured call.queues
    exact ⟨_, hpooled', fun handle => orphan_iff_of_moves handle hmoves⟩
  | @endpoint key peer configured addr allowed =>
    refine .of_same hpooled ?_ rfl
    funext k
    by_cases hk : k = key
    · subst hk
      rw [queueOf_of_peer configured]
      exact congrArg queueIn (Bounded.lookup_replace_self _ (Bounded.mem_of_lookup configured))
    · exact congrArg queueIn (Bounded.lookup_replace_ne _ hk)

theorem Moves.follows {roams : Prop} (h : Moves roams d d') (hpooled : d.Pooled items) :
    d.Follows items d' := by
  induction h with
  | refl => exact .of_same hpooled rfl rfl
  | tail _ hlast ih =>
    obtain ⟨items₁, hpooled₁, horphan₁⟩ := ih
    obtain ⟨items₂, hpooled₂, horphan₂⟩ := hlast.follows hpooled₁
    exact ⟨items₂, hpooled₂, fun handle => (horphan₂ handle).trans (horphan₁ handle)⟩

theorem addPeerToState_queues {profile : Profile} {s s' : PeerState K} {config : PeerConfig}
    {r : Except Error Unit} {privateKey : K.Secret} {g g' : IndexGenerator} {stamper : TimeStamper}
    {w w' : World K N BYTES}
    (h : addPeerToState profile s config privateKey g stamper w = .ok (r, s', g', w')) :
    (∀ key, queueIn (s'.peerByKey key) = queueIn (s.peerByKey key)) ∧ w'.pool = w.pool := by
  rcases addPeerToState_ok h with
    ⟨-, rfl, ⟨-, rfl⟩ | ⟨-, rfl⟩⟩ | ⟨-, hnew, rfl, index, allowedIps, peersByIp, -, -, -, rfl⟩
  · exact ⟨fun _ => rfl, rfl⟩
  · exact ⟨fun _ => rfl, rfl⟩
  · refine ⟨fun key => ?_, rfl⟩
    by_cases hkey : key = config.publicKey
    · subst hkey
      have hstored : (s.peers.insert config.publicKey
          (newPeer config privateKey index stamper allowedIps w)).lookup config.publicKey =
          some (newPeer config privateKey index stamper allowedIps w) := AList.lookup_insert _
      rw [hnew]
      exact (congrArg queueIn hstored).trans rfl
    · exact congrArg queueIn (AList.lookup_insert_ne hkey)

theorem stats_pool {t : Tunn K} {w w' : World K N BYTES} {stats : Stats}
    (h : t.stats w = .ok (stats, w')) : w'.pool = w.pool := by
  obtain ⟨⟨since, w₁⟩, hsince, h⟩ := bind_ok_iff.mp h
  cases h
  rw [Tunn.timeSinceLastHandshake] at hsince
  split at hsince
  · dsimp only at hsince
    split at hsince
    · cases hsince
    · cases hsince
      rfl
  · cases hsince
    rfl

theorem handlePeerUpdate_queues {c : Command} {completion : CommandCompletion}
    (h : d.handlePeerUpdate c = .ok (completion, d')) :
    d'.world.pool = d.world.pool ∧
      ((∃ key, c = .remove key ∧ d'.queueOf = Function.update d.queueOf key {}) ∨
        (∀ key, c ≠ .remove key) ∧ d'.queueOf = d.queueOf) := by
  cases handlePeerUpdate_cases h with
  | none | unknown | list => exact ⟨rfl, .inr ⟨fun _ h => (by cases h), rfl⟩⟩
  | get call => exact ⟨stats_pool call, .inr ⟨fun _ h => (by cases h), rfl⟩⟩
  | add call =>
    obtain ⟨hqueue, hpool⟩ := addPeerToState_queues call
    exact ⟨hpool, .inr ⟨fun _ h => (by cases h), funext hqueue⟩⟩
  | @update config _ _ call =>
    refine ⟨rfl, .inr ⟨fun _ h => (by cases h), ?_⟩⟩
    rcases updatePeerInState_ok call with
      ⟨-, rfl⟩ | ⟨-, peer, allowedIps, peersByIp, hpeer, -, -, rfl⟩
    · rfl
    · funext key
      by_cases hkey : key = config.publicKey
      · subst hkey
        rw [queueOf_of_peer hpeer]
        exact congrArg queueIn (Bounded.lookup_replace_self _ (Bounded.mem_of_lookup hpeer))
      · exact congrArg queueIn (Bounded.lookup_replace_ne _ hkey)
  | @remove key =>
    refine ⟨rfl, .inl ⟨key, rfl, ?_⟩⟩
    funext k
    rw [queueOf, removePeerFromState_eq]
    by_cases hk : k = key
    · subst hk
      rw [Function.update_self]
      cases hpeer : d.peers.peerByKey k with
      | none =>
        dsimp only
        rw [hpeer]
        rfl
      | some peer =>
        have hgone : (d.peers.peers.erase k).lookup k = none := AList.lookup_erase _ _
        exact congrArg queueIn hgone
    · rw [Function.update_of_ne hk]
      cases hpeer : d.peers.peerByKey key with
      | none => rfl
      | some peer => exact congrArg queueIn (AList.lookup_erase_ne hk)

/-! ### Removing a peer -/

/-- The peer is removed while packets wait for it. -/
def Leaks (d : Device K N BYTES) : Event → Prop
  | .command (.remove key) => (d.queueOf key).head ≠ none
  | _ => False

instance (d : Device K N BYTES) (e : Event) : Decidable (d.Leaks e) :=
  match e with
  | .command (.remove key) => inferInstanceAs (Decidable ((d.queueOf key).head ≠ none))
  | .command .none | .command (.add _) | .command (.update _) | .command (.get _) | .command .list =>
    isFalse id
  | .tunPacket _ _ | .udpPacket _ _ _ | .tick _ | .reorder _ => isFalse id

theorem Pooled.remove (h : d.Pooled items) {key : PublicKey}
    (hqueue : d'.queueOf = Function.update d.queueOf key {})
    (hpool : d'.world.pool = d.world.pool) : d'.Pooled (Function.update items key []) := by
  refine ⟨hpool ▸ h.wf, ⟨fun k => ?_, fun j k hjk x hx hx' => ?_⟩, fun k => ?_⟩
  · rw [hqueue, hpool]
    by_cases hk : k = key
    · subst hk
      rw [Function.update_self, Function.update_self]
      exact .empty _
    · rw [Function.update_of_ne hk, Function.update_of_ne hk]
      exact h.family.holds k
  · by_cases hj : j = key
    · subst hj
      rw [Function.update_self] at hx
      cases hx
    by_cases hk : k = key
    · subst hk
      rw [Function.update_self] at hx'
      cases hx'
    · rw [Function.update_of_ne hj] at hx
      rw [Function.update_of_ne hk] at hx'
      exact h.family.disjoint j k hjk x hx hx'
  · by_cases hk : k = key
    · subst hk
      rw [Function.update_self]
      exact Nat.zero_le _
    · rw [Function.update_of_ne hk]
      exact h.bounded k

theorem orphan_remove (h : d.Pooled items) {key : PublicKey} {handle : ℕ}
    (hpool : d'.world.pool = d.world.pool) :
    d'.Orphan (Function.update items key []) handle ↔
      d.Orphan items handle ∨ handle ∈ handles (items key) := by
  rw [Orphan, Orphan, hpool]
  constructor
  · intro ⟨hlive, hout⟩
    by_cases hmem : handle ∈ handles (items key)
    · exact .inr hmem
    · refine .inl ⟨hlive, fun k => ?_⟩
      by_cases hk : k = key
      · rwa [hk]
      · have hother := hout k
        rwa [Function.update_of_ne hk] at hother
  · intro hor
    rcases hor with ⟨hlive, hout⟩ | hmem
    · refine ⟨hlive, fun k => ?_⟩
      by_cases hk : k = key
      · subst hk
        rw [Function.update_self]
        exact List.not_mem_nil
      · rw [Function.update_of_ne hk]
        exact hout k
    · refine ⟨(h.family.holds key).ne_none hmem, fun k => ?_⟩
      by_cases hk : k = key
      · subst hk
        rw [Function.update_self]
        exact List.not_mem_nil
      · rw [Function.update_of_ne hk]
        exact h.family.disjoint key k (Ne.symm hk) handle hmem

structure Orphans (d : Device K N BYTES) (items : PublicKey → List (ℕ × QueuedPacket)) (e : Event)
    (d' : Device K N BYTES) (items' : PublicKey → List (ℕ × QueuedPacket)) : Prop where
  pooled : d'.Pooled items'
  kept : ∀ handle, d.Orphan items handle → d'.Orphan items' handle
  leaked : d.Leaks e → ∃ handle, d'.Orphan items' handle
  safe : ¬d.Leaks e → ∀ handle, d'.Orphan items' handle → d.Orphan items handle

theorem Follows.orphans {e : Event} (h : d.Follows items d') (hsafe : ¬d.Leaks e) :
    ∃ items', d.Orphans items e d' items' := by
  obtain ⟨items', hpooled, horphan⟩ := h
  exact ⟨items', hpooled, fun handle => (horphan handle).mpr, fun hleaks => absurd hleaks hsafe,
    fun _ handle => (horphan handle).mp⟩

theorem remove_orphans (h : d.Pooled items) {key : PublicKey}
    (hqueue : d'.queueOf = Function.update d.queueOf key {})
    (hpool : d'.world.pool = d.world.pool) :
    d.Orphans items (.command (.remove key)) d' (Function.update items key []) := by
  have hhead := (h.family.holds key).head_eq
  have horphan : ∀ x, d'.Orphan (Function.update items key []) x ↔
      d.Orphan items x ∨ x ∈ handles (items key) := fun x => orphan_remove h hpool
  refine ⟨h.remove hqueue hpool, fun handle hold => (horphan handle).mpr (.inl hold),
    fun hleaks => ?_, fun hsafe handle hnow => ?_⟩
  · cases hitems : items key with
    | nil =>
      rw [hitems] at hhead
      exact absurd hhead hleaks
    | cons x rest =>
      refine ⟨x.1, (horphan x.1).mpr (.inr ?_)⟩
      rw [hitems]
      exact List.mem_cons_self
  · rcases (horphan handle).mp hnow with hold | hmem
    · exact hold
    · have hnone : (d.queueOf key).head = none := not_not.mp hsafe
      rw [hhead, List.head?_eq_none_iff] at hnone
      rw [hnone] at hmem
      cases hmem

theorem step_orphans {e : Event} {outputs : List Output} (h : d.step e = .ok (outputs, d'))
    (hpooled : d.Pooled items) : ∃ items', d.Orphans items e d' items' := by
  cases e with
  | tunPacket packet fits =>
    have hmoves : Moves True d d' := handleTunPacket_moves h
    exact (hmoves.follows hpooled).orphans id
  | udpPacket datagram fits src => exact ((handleUdpPacket_moves h).follows hpooled).orphans id
  | tick order =>
    have hmoves : Moves True d d' := tick_moves h
    exact (hmoves.follows hpooled).orphans id
  | reorder order =>
    cases h
    have hqueue : ({ d with peers := { d.peers with
        peers := Bounded.reorder order d.peers.peers } } : Device K N BYTES).queueOf = d.queueOf :=
      funext fun key => congrArg queueIn (Bounded.lookup_reorder order d.peers.peers key)
    exact (Follows.of_same hpooled hqueue rfl).orphans id
  | command c =>
    obtain ⟨⟨completion, d₁⟩, hcall, h⟩ := bind_ok_iff.mp h
    cases h
    obtain ⟨hpool, ⟨key, rfl, hqueue⟩ | ⟨hother, hqueue⟩⟩ := handlePeerUpdate_queues hcall
    · exact ⟨_, remove_orphans hpooled hqueue hpool⟩
    · refine (Follows.of_same hpooled hqueue hpool).orphans fun hleaks => ?_
      cases c with
      | remove key => exact hother key rfl
      | _ => exact hleaks

/-! ### Runs -/

/-- The live cells of the pool are the cells that the queues of the configured peers lead to, and
no two queues share one. -/
structure Conserved (d : Device K N BYTES) (items : PublicKey → List (ℕ × QueuedPacket)) : Prop where
  wf : d.world.pool.WF
  reads : ∀ key peer, d.peers.peerByKey key = some peer →
    Holds d.world.pool.view peer.tunnel.packetQueue (items key)
  disjoint : ∀ key key', key ≠ key' → ∀ x ∈ handles (items key), x ∉ handles (items key')
  live_iff : ∀ x, d.world.pool.view x ≠ none ↔
    ∃ key peer, d.peers.peerByKey key = some peer ∧ x ∈ handles (items key)

theorem Pooled.conserved (h : d.Pooled items) (hno : ∀ handle, ¬d.Orphan items handle) :
    d.Conserved items := by
  refine ⟨h.wf, fun key peer hpeer => queueOf_of_peer hpeer ▸ h.family.holds key,
    h.family.disjoint, fun x => ⟨fun hlive => ?_, fun ⟨key, peer, hpeer, hx⟩ => ?_⟩⟩
  · by_contra hnone
    refine hno x ⟨hlive, fun key hx => hnone ?_⟩
    cases hpeer : d.peers.peerByKey key with
    | none =>
      rw [h.nil_of_not_configured hpeer] at hx
      cases hx
    | some peer => exact ⟨key, peer, hpeer, hx⟩
  · exact (h.family.holds key).ne_none hx

theorem Orphan.not_conserved {handle : ℕ} (h : d.Orphan items handle) (hpooled : d.Pooled items)
    (items' : PublicKey → List (ℕ × QueuedPacket)) : ¬d.Conserved items' := by
  intro hconserved
  obtain ⟨key, peer, hpeer, hx⟩ := (hconserved.live_iff handle).mp h.1
  have hholds := hpooled.family.holds key
  rw [queueOf_of_peer hpeer] at hholds
  rw [(hconserved.reads key peer hpeer).unique hholds] at hx
  exact h.2 key hx

theorem run_orphans {events : List Event} {outputs : List (List Output)}
    (hrun : Machine.run step d events = .ok (outputs, d')) (hpooled : d.Pooled items) :
    ∃ items', d'.Pooled items' ∧ (∀ handle, d.Orphan items handle → d'.Orphan items' handle) ∧
      (¬Machine.Along step (fun d e => ¬d.Leaks e) d events → ∃ handle, d'.Orphan items' handle) ∧
      (Machine.Along step (fun d e => ¬d.Leaks e) d events →
        ∀ handle, d'.Orphan items' handle → d.Orphan items handle) := by
  induction events generalizing d items outputs with
  | nil =>
    cases hrun
    exact ⟨items, hpooled, fun _ => id, fun hno => absurd trivial hno, fun _ _ => id⟩
  | cons e events ih =>
    obtain ⟨sent, d₁, rest, hstep, hrest, -⟩ := Machine.run_cons_ok.mp hrun
    obtain ⟨items₁, hfirst⟩ := step_orphans hstep hpooled
    obtain ⟨items', hpooled', hkept, hleaked, hsafe⟩ := ih hrest hfirst.pooled
    rw [Machine.Along, hstep]
    refine ⟨items', hpooled', fun handle hold => hkept handle (hfirst.kept handle hold),
      fun hno => ?_, fun ⟨hgood, hrestGood⟩ handle hnow => ?_⟩
    · by_cases hleaks : d.Leaks e
      · obtain ⟨handle, hnew⟩ := hfirst.leaked hleaks
        exact ⟨handle, hkept handle hnew⟩
      · exact hleaked fun hrestGood => hno ⟨hleaks, hrestGood⟩
    · exact hfirst.safe hgood handle (hsafe hrestGood handle hnow)

variable {profile : Profile} {config : Config K} {resources : Resources} {draws : Draws}
  {clock : ℕ → ℕ} {secrets : ℕ → K.Secret}

theorem new_pooled (h : new profile config resources draws clock secrets = .ok (.ok d)) :
    d.Pooled (fun _ => []) ∧ ∀ handle, ¬d.Orphan (fun _ => []) handle := by
  obtain ⟨-, w, hworld, hempty, hpool⟩ := new_invariant
    (I := fun s _ w => (∀ key, queueIn (s.peerByKey key) = {}) ∧ w.pool = .new N BYTES profile) h
    (fun hcall hs => by
      obtain ⟨hqueue, hpool⟩ := addPeerToState_queues hcall
      exact ⟨fun key => (hqueue key).trans (hs.1 key), hpool.trans hs.2⟩)
    ⟨fun _ => rfl, rfl⟩
  have hpool' : d.world.pool = .new N BYTES profile := hworld.trans hpool
  constructor
  · refine ⟨?_, ⟨fun key => ?_, fun _ _ _ x hx => ?_⟩, fun _ => Nat.zero_le _⟩
    · rw [hpool']
      exact PacketPool.wf_new N BYTES profile
    · rw [queueOf, hempty key]
      exact .empty _
    · cases hx
  · intro handle horphan
    apply horphan.1
    rw [hpool']
    exact PacketPool.view_new N BYTES profile handle

/-- In every run the pool holds the packets of the configured peers and nothing else, exactly when
no peer was removed while packets waited for it. -/
theorem run_conserved_iff
    (hnew : new profile config resources draws clock secrets = .ok (.ok d₀))
    {events : List Event} {outputs : List (List Output)}
    (hrun : Machine.run step d₀ events = .ok (outputs, d)) :
    (∃ items, d.Conserved items) ↔ Machine.Along step (fun d e => ¬d.Leaks e) d₀ events := by
  obtain ⟨hpooled₀, hno⟩ := new_pooled hnew
  obtain ⟨items, hpooled, -, hleaked, hsafe⟩ := run_orphans hrun hpooled₀
  constructor
  · intro ⟨items', hconserved⟩
    by_contra hbad
    obtain ⟨handle, horphan⟩ := hleaked hbad
    exact horphan.not_conserved hpooled items' hconserved
  · intro halong
    exact ⟨items, hpooled.conserved fun handle horphan =>
      hno handle (hsafe halong handle horphan)⟩

end Device

namespace Sample

open Noise

/-- A packet waits for the handshake with the peer when the peer is removed. -/
theorem removed_peer_leaks :
    ∃ start outputs d, device 1 [peerConfig 5 lan none] = .ok (.ok start) ∧
      Machine.run Device.step start
        [.tunPacket innerPacket (by decide), .command (.remove (key 5))] = .ok (outputs, d) ∧
      ∀ items, ¬d.Conserved items := by
  have hsample : runAnd 1 [peerConfig 5 lan none]
      [.tunPacket innerPacket (by decide), .command (.remove (key 5))]
      (fun (_, d) => d.peers.peerKeys = [] && (d.world.pool.view 0).isSome) = true := by
    decide +kernel
  obtain ⟨start, outputs, d, hnew, hrun, hp⟩ := exists_of_runAnd hsample
  rw [Bool.and_eq_true, decide_eq_true_eq, Option.isSome_iff_ne_none] at hp
  refine ⟨start, outputs, d, hnew, hrun, fun items hconserved => ?_⟩
  obtain ⟨publicKey, peer, hpeer, -⟩ := (hconserved.live_iff 0).mp hp.2
  have hmem : publicKey ∈ d.peers.peerKeys := Bounded.mem_of_lookup hpeer
  rw [hp.1] at hmem
  cases hmem

theorem run_conserved_iff_waiting :
    ∃ start outputs d, device 1 [peerConfig 5 lan none, peerConfig 7 [] none] = .ok (.ok start) ∧
      Machine.run Device.step start
        [.tunPacket innerPacket (by decide), .command (.remove (key 7))] = .ok (outputs, d) ∧
      d.peers.peerKeys = [key 5] ∧ (d.world.pool.view 0).isSome = true ∧
      ∃ items, d.Conserved items := by
  have hsample : okAnd (okAnd fun start => decide (Machine.Along Device.step (fun d e => ¬d.Leaks e) start
        [.tunPacket innerPacket (by decide), .command (.remove (key 7))]) &&
      okAnd (fun (_, d) => d.peers.peerKeys = [key 5] ∧ (d.world.pool.view 0).isSome = true)
        (Machine.run Device.step start
          [.tunPacket innerPacket (by decide), .command (.remove (key 7))]))
      (device 1 [peerConfig 5 lan none, peerConfig 7 [] none]) = true := by
    decide +kernel
  obtain ⟨r, hnew, hstarted⟩ := exists_of_okAnd hsample
  obtain ⟨start, rfl, hran⟩ := exists_of_okAnd hstarted
  rw [Bool.and_eq_true, decide_eq_true_eq] at hran
  obtain ⟨⟨outputs, d⟩, hrun, hp⟩ := exists_of_okAnd hran.2
  obtain ⟨hkeys, hqueued⟩ := of_decide_eq_true hp
  exact ⟨start, outputs, d, hnew, hrun, hkeys, hqueued, (Device.run_conserved_iff hnew hrun).mpr hran.1⟩

end Sample

end Tendrilix
