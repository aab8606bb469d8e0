import Tendrilix.Device.PeerTable
import Tendrilix.Noise.TunnSpec

/-!
# Receiver indexes find their peer

The upper 24 bits of every index that a tunnel hands out are the index of its peer. So the table
of indexes attributes a packet to the peer whose session or handshake it names, and an index that
belonged to a removed peer finds nobody.
-/

namespace Tendrilix

open Noise

variable {K : Crypto} {N BYTES : ℕ}

/-! ### The indexes of one tunnel -/

namespace Noise

theorem nextIndex_div (index : ℕ) : nextIndex index / 256 = index / 256 := by
  rw [nextIndex]
  omega

namespace Tunn

structure OwnIndexes (index : ℕ) (t : Tunn K) : Prop where
  next : t.handshake.nextLocalIndex / 256 = index
  sessions : ∀ i s, t.sessions i = some s → s.localIndex / 256 = index
  pending : ∀ s, t.handshake.Pending s → s.localIndex / 256 = index
  cookies : t.handshake.cookies.lastMac1.isSome → t.handshake.cookies.index / 256 = index

theorem new_ownIndexes (staticPrivate : K.Secret) (peerStaticPublic : Bytes) (keepalive : Option ℕ)
    {index : ℕ} (stamper : TimeStamper) (w : World K N BYTES) (hlt : index < 2 ^ 24) :
    (new staticPrivate peerStaticPublic keepalive index stamper w).1.OwnIndexes index where
  next := by
    change index * 2 ^ 8 % 2 ^ 32 / 256 = index
    omega
  sessions := nofun
  pending := by
    rintro s (h | h)
    · cases h
    · cases h
  cookies := nofun

variable {t t' : Tunn K} {w w' : World K N BYTES} {index : ℕ}

theorem OwnIndexes.setSession (h : t.OwnIndexes index) {i : ℕ} {s : Session}
    (hs : s.localIndex / 256 = index) : (t.setSession i s).OwnIndexes index := by
  refine ⟨h.next, fun j s' hs' => ?_, h.pending, h.cookies⟩
  simp only [Tunn.setSession, Function.update_apply] at hs'
  split at hs'
  · cases hs'
    exact hs
  · exact h.sessions j s' hs'

theorem OwnIndexes.congr (h : t.OwnIndexes index) (hhandshake : t'.handshake = t.handshake)
    (hsessions : t'.sessions = t.sessions) : t'.OwnIndexes index := by
  refine ⟨?_, ?_, ?_, ?_⟩
  · rw [hhandshake]
    exact h.next
  · rw [hsessions]
    exact h.sessions
  · rw [hhandshake]
    exact h.pending
  · rw [hhandshake]
    exact h.cookies

theorem OwnIndexes.handshake (h : t.OwnIndexes index) {hs : Handshake K}
    (hnext : hs.nextLocalIndex / 256 = t.handshake.nextLocalIndex / 256)
    (hpending : ∀ s, hs.Pending s → t.handshake.Pending s ∨
      s.localIndex = t.handshake.nextLocalIndex)
    (hcookies : hs.cookies.index = t.handshake.nextLocalIndex ∨
      hs.cookies.index = t.handshake.cookies.index ∧
        hs.cookies.lastMac1 = t.handshake.cookies.lastMac1) :
    OwnIndexes index { t with handshake := hs } := by
  refine ⟨hnext.trans h.next, h.sessions, fun s hs => ?_, fun hsome => ?_⟩
  · rcases hpending s hs with hold | hnew
    · exact h.pending s hold
    · rw [hnew]
      exact h.next
  · rcases hcookies with hnew | ⟨hsame, hlast⟩
    · rw [show (Tunn.handshake { t with handshake := hs }).cookies.index = _ from hnew]
      exact h.next
    · rw [show (Tunn.handshake { t with handshake := hs }).cookies.index = _ from hsame]
      exact h.cookies (hlast ▸ hsome)

theorem Installed.ownIndexes {s : Session} (hinst : Installed t s t') (h : t.OwnIndexes index)
    (hs : s.localIndex / 256 = index) : t'.OwnIndexes index :=
  (h.setSession (i := s.receivingIndex) hs).congr hinst.handshake_eq hinst.sessions_eq

end Tunn

theorem Handshake.Pending.of_consume {h : Handshake K} {receiverIdx : ℕ}
    {s : HandshakeInitSentState K} (hs : (h.consume receiverIdx).Pending s) : h.Pending s := by
  rw [consume] at hs
  split at hs
  · rcases hs with hs | hs
    · cases hs
    · exact .inr hs
  · rcases hs with hs | hs
    · exact .inl hs
    · cases hs

theorem Effect.ownIndexes {t t' : Tunn K} {w w' : World K N BYTES} {l : Option Packet} {index : ℕ}
    (effect : Effect t w l t' w') (h : t.OwnIndexes index) : t'.OwnIndexes index := by
  cases effect with
  | timers | count | read | observe | clearTimers | queue => exact h.congr rfl rfl
  | expireSessions _ call =>
    rw [Tunn.updateSessionTimers_ok call]
    refine ⟨h.next, fun i s hs => ?_, h.pending, h.cookies⟩
    dsimp only at hs
    split at hs
    · cases hs
    · exact h.sessions i s hs
  | encrypt call =>
    rcases Tunn.sealWithCurrent_ok call with ⟨-, rfl, rfl, -⟩ | ⟨packet, s, -, hs, -, rfl, rfl⟩
    · exact h
    · exact h.setSession (h.sessions _ s hs)
  | cookies => exact h.handshake rfl (fun s hs => .inl hs) (.inr ⟨rfl, rfl⟩)
  | expireHandshake =>
    refine h.handshake rfl ?_ (.inr ⟨rfl, rfl⟩)
    rintro s (hs | hs)
    · cases hs
    · cases hs
  | initiate call =>
    have hcookies := Handshake.formatHandshakeInitiation_cookies call
    obtain ⟨sent, cookies, hidx, -, rfl, rfl⟩ := Handshake.formatHandshakeInitiation_ok call
    refine h.handshake (nextIndex_div _) ?_ (.inl hcookies)
    rintro s (hs | hs)
    · cases hs
      exact .inr hidx
    · exact .inl (.inl hs)
  | refuse call =>
    obtain ⟨rfl, rfl | ⟨timestamp, hash, chainingKey, -, -, rfl⟩⟩ :=
      Handshake.receiveHandshakeInitialization_error call
    · exact h.congr rfl rfl
    · refine h.handshake rfl ?_ (.inr ⟨rfl, rfl⟩)
      rintro s (hs | hs)
      · cases hs
      · exact .inl (.inl hs)
  | respond call =>
    have hcookies := Handshake.receiveHandshakeInitialization_cookies call
    obtain ⟨timestamp, hash, chainingKey, keys, cookies, -, -, rfl, rfl, rfl⟩ :=
      Handshake.receiveHandshakeInitialization_ok call
    refine (Tunn.installResponder_installed _ _).ownIndexes
      (h.handshake (nextIndex_div _) ?_ (.inl hcookies)) h.next
    rintro s (hs | hs)
    · cases hs
    · exact .inl (.inl hs)
  | conclude call sent =>
    obtain ⟨state, keys, hexpected, -, rfl, ⟨rtt, rfl⟩, rfl⟩ :=
      Handshake.receiveHandshakeResponse_ok call
    have hpending : t.handshake.Pending state := by
      rcases (Handshake.expected_eq_some hexpected).2 with ⟨hs, -⟩ | ⟨hs, -⟩
      · exact .inl hs
      · exact .inr hs
    rcases World.sealPacket_ok sent with ⟨hnone, -⟩ | ⟨packet, -, -, rfl, -⟩
    · cases hnone
    refine (Tunn.installInitiator_installed _ _).ownIndexes (h.handshake ?_ ?_ ?_)
      (h.pending state hpending)
    · rw [Handshake.consume_nextLocalIndex]
    · intro s hs
      exact .inl (Handshake.Pending.of_consume (h := { t.handshake with lastRtt := rtt }) hs)
    · rw [Handshake.consume_cookies]
      exact .inr ⟨rfl, rfl⟩
  | reject _ call =>
    rw [Tunn.decryptRawData_error call]
    exact h
  | receive _ hp call =>
    obtain ⟨s, s', hs, hreceive, rfl⟩ := Tunn.decryptRawData_ok call
    obtain ⟨-, -, -, v, receiveCnt, -, hs'⟩ := Session.receivePacketData_ok hreceive
    have hown : s'.localIndex / 256 = index := by
      rw [hs']
      exact h.sessions _ s hs
    exact (h.setSession hown).congr (Tunn.setCurrentSession_handshake _ _)
      (Tunn.setCurrentSession_sessions _ _)

end Noise

/-! ### The indexes of a device -/

namespace Device

variable {d d' start : Device K N BYTES} {events : List Event} {outputs : List (List Output)}

theorem ownIndexes_inherited (profile : Profile) :
    Inherited (K := K) profile N BYTES fun _ peer => peer.tunnel.OwnIndexes peer.index where
  new config privateKey stamper allowedIps w g g' index _ hnext := by
    apply Tunn.new_ownIndexes
    obtain ⟨-, rfl, -⟩ := IndexGenerator.newIndex_ok hnext
    exact (IndexGenerator.indexOf_bounds g.mask_le g.lfsr_lt).2
  update config allowedIps peer _ h := h.congr rfl rfl

theorem Move.ownIndexes (h : Move True d d')
    (hinv : d.peers.All fun _ peer => peer.tunnel.OwnIndexes peer.index) :
    d'.peers.All fun _ peer => peer.tunnel.OwnIndexes peer.index := by
  cases h with
  | read | count => exact hinv
  | @tunnel key peer t w configured call =>
    obtain ⟨ls, hpath⟩ := call.path
    refine hinv.setPeer (Bounded.mem_of_lookup configured) ?_
    exact hpath.invariant (I := fun t _ => t.OwnIndexes peer.index)
      (fun effect => effect.ownIndexes) (hinv key peer configured)
  | @endpoint key peer configured addr allowed =>
    have howns := hinv key peer configured
    exact hinv.setPeer (Bounded.mem_of_lookup configured) howns

theorem run_ownIndexes
    (hstart : start.peers.All fun _ peer => peer.tunnel.OwnIndexes peer.index)
    (hrun : Machine.run step start events = .ok (outputs, d)) :
    d.peers.All fun _ peer => peer.tunnel.OwnIndexes peer.index :=
  Machine.run_invariant (I := fun d => d.peers.All fun _ peer => peer.tunnel.OwnIndexes peer.index)
    (fun _ _ _ _ _ hinv hstep => step_all (ownIndexes_inherited _) Move.ownIndexes hstep hinv) hrun
    hstart

theorem Tables.peerKeyByIndex (h : d.Tables) {key : PublicKey} {peer : Peer K}
    (hpeer : d.peers.peerByKey key = some peer) {index : ℕ} (hindex : index / 256 = peer.index) :
    d.peers.peerKeyByIndex index = some key := by
  rw [PeerState.peerKeyByIndex, Nat.shiftRight_eq_div_pow, h.indexed.byIdx]
  exact ⟨peer, hpeer, hindex.symm⟩

/-- No peer has the index, and no new peer will get it. -/
structure Retired (index : ℕ) (d : Device K N BYTES) : Prop where
  unused : d.peers.All fun _ peer => peer.index ≠ index
  spent : ∀ n, index ∉ d.indexGenerator.indexes n

theorem addPeerToState_retired {profile : Profile} {s s' : PeerState K} {config : PeerConfig}
    {r : Except Error Unit} {privateKey : K.Secret} {g g' : IndexGenerator} {stamper : TimeStamper}
    {w w' : World K N BYTES} {index : ℕ}
    (h : addPeerToState profile s config privateKey g stamper w = .ok (r, s', g', w'))
    (hunused : s.All fun _ peer => peer.index ≠ index) (hspent : ∀ n, index ∉ g.indexes n) :
    (s'.All fun _ peer => peer.index ≠ index) ∧ ∀ n, index ∉ g'.indexes n := by
  rcases addPeerToState_ok h with
    ⟨-, rfl, ⟨rfl, -⟩ | ⟨⟨other, hnext⟩, -⟩⟩ |
      ⟨-, hnew, -, other, allowedIps, peersByIp, hnext, hips, hrebuilt, rfl⟩
  · exact ⟨hunused, hspent⟩
  · exact ⟨hunused, fun n hmem => hspent (n + 1) (IndexGenerator.mem_indexes_of_next hnext hmem)⟩
  · refine ⟨hunused.insert ?_ _ _, fun n hmem =>
      hspent (n + 1) (IndexGenerator.mem_indexes_of_next hnext hmem)⟩
    intro heq
    exact hspent 1 (heq ▸ IndexGenerator.mem_indexes_one hnext)

theorem Move.retired {index : ℕ} (h : Move True d d') (hinv : Retired index d) : Retired index d' := by
  cases h with
  | read | count => exact ⟨hinv.unused, hinv.spent⟩
  | @tunnel key peer t w configured call =>
    have hne := hinv.unused key peer configured
    exact ⟨hinv.unused.setPeer (Bounded.mem_of_lookup configured) hne, hinv.spent⟩
  | @endpoint key peer configured addr allowed =>
    have hne := hinv.unused key peer configured
    exact ⟨hinv.unused.setPeer (Bounded.mem_of_lookup configured) hne, hinv.spent⟩

theorem handlePeerUpdate_retired {c : Command} {completion : CommandCompletion} {index : ℕ}
    (h : d.handlePeerUpdate c = .ok (completion, d')) (hinv : Retired index d) :
    Retired index d' := by
  cases handlePeerUpdate_cases h with
  | none | unknown | list => exact hinv
  | get => exact ⟨hinv.unused, hinv.spent⟩
  | add call =>
    obtain ⟨hunused, hspent⟩ := addPeerToState_retired call hinv.unused hinv.spent
    exact ⟨hunused, hspent⟩
  | update call =>
    rcases updatePeerInState_ok call with
      ⟨-, rfl⟩ | ⟨-, peer, allowedIps, peersByIp, hpeer, -, -, rfl⟩
    · exact ⟨hinv.unused, hinv.spent⟩
    · have hne := hinv.unused _ peer hpeer
      exact ⟨hinv.unused.setPeer (Bounded.mem_of_lookup hpeer) hne, hinv.spent⟩
  | @remove publicKey =>
    rw [removePeerFromState_eq]
    split
    · exact ⟨hinv.unused, hinv.spent⟩
    · exact ⟨hinv.unused.erase publicKey _ _, hinv.spent⟩

theorem step_retired {e : Event} {sent : List Output} {index : ℕ}
    (h : d.step e = .ok (sent, d')) (hinv : Retired index d) : Retired index d' := by
  rcases step_cases h with ⟨c, completion, -, hcall, -⟩ | ⟨order, -, rfl⟩ | hmoves
  · exact handlePeerUpdate_retired hcall hinv
  · exact ⟨hinv.unused.reorder order, hinv.spent⟩
  · exact hmoves.invariant Move.retired hinv

theorem remove_retired {key : PublicKey} {peer : Peer K} {sent : List Output} (h : d.Tables)
    (hpeer : d.peers.peerByKey key = some peer)
    (hstep : d.step (.command (.remove key)) = .ok (sent, d')) : Retired peer.index d' := by
  cases hstep
  rw [removePeerFromState_eq, hpeer]
  refine ⟨fun k p hp heq => ?_, fun n => h.indexed.fresh key peer n hpeer⟩
  obtain ⟨hk, hp⟩ := Bounded.lookup_erase_eq_some_iff.mp hp
  have hown := (h.indexed.byIdx peer.index key).mpr ⟨peer, hpeer, rfl⟩
  have hother := (h.indexed.byIdx peer.index k).mpr ⟨p, hp, heq⟩
  exact hk (Option.some.inj (hother.symm.trans hown))

theorem Retired.peerKeyByIndex {index : ℕ} (hretired : Retired (index / 256) d) (h : d.Tables) :
    d.peers.peerKeyByIndex index = none := by
  rw [PeerState.peerKeyByIndex, Nat.shiftRight_eq_div_pow, Option.eq_none_iff_forall_ne_some]
  intro key hkey
  obtain ⟨peer, hpeer, hindex⟩ := (h.indexed.byIdx _ key).mp hkey
  exact hretired.unused key peer hpeer hindex

/-- Whatever a device has been through, the local index of each session, of each handshake that
awaits a response and of the message a cookie reply may answer finds the peer it belongs to. The
indexes of a peer that was removed find nobody. -/
theorem run_indexes_attributed (profile : Profile) (config : Config K) (resources : Resources)
    (draws : Draws) (clock : ℕ → ℕ) (secrets : ℕ → K.Secret) (start : Device K N BYTES)
    (hnew : new profile config resources draws clock secrets = .ok (.ok start))
    (events : List Event) (outputs : List (List Output))
    (hrun : Machine.run step start events = .ok (outputs, d)) :
    (∀ key peer, d.peers.peerByKey key = some peer →
      (∀ i s, peer.tunnel.sessions i = some s →
        d.peers.peerKeyByIndex s.localIndex = some key) ∧
      (∀ s, peer.tunnel.handshake.Pending s →
        d.peers.peerKeyByIndex s.localIndex = some key) ∧
      (peer.tunnel.handshake.cookies.lastMac1.isSome →
        d.peers.peerKeyByIndex peer.tunnel.handshake.cookies.index = some key)) ∧
    ∀ before after earlier d₁ key peer, events = before ++ .command (.remove key) :: after →
      Machine.run step start before = .ok (earlier, d₁) → d₁.peers.peerByKey key = some peer →
        ∀ index, index >>> 8 = peer.index → d.peers.peerKeyByIndex index = none := by
  have htables := run_tables hrun (new_tables hnew)
  have howns := run_ownIndexes (new_all (ownIndexes_inherited _) hnew) hrun
  refine ⟨fun key peer hpeer => ?_, ?_⟩
  · have hown := howns key peer hpeer
    exact ⟨fun i s hs => htables.peerKeyByIndex hpeer (hown.sessions i s hs),
      fun s hs => htables.peerKeyByIndex hpeer (hown.pending s hs),
      fun hlast => htables.peerKeyByIndex hpeer (hown.cookies hlast)⟩
  · rintro before after earlier d₁ key peer rfl hbefore hpeer index hindex
    obtain ⟨os₁, d₂, os₂, hfirst, hrest, -⟩ := Machine.run_append_ok.mp hrun
    cases hbefore.symm.trans hfirst
    obtain ⟨sent, d₃, os₃, hremove, hafter, -⟩ := Machine.run_cons_ok.mp hrest
    have hretired := remove_retired (run_tables hbefore (new_tables hnew)) hpeer hremove
    rw [← hindex, Nat.shiftRight_eq_div_pow] at hretired
    have hlater : Retired (index / 2 ^ 8) d :=
      Machine.run_invariant (fun _ _ _ _ _ hinv hstep => step_retired hstep hinv) hafter hretired
    exact hlater.peerKeyByIndex htables

theorem run_indexes_attributed_handshake :
    ∃ (d : Device Crypto.sample 8 8192) (peer : Peer Crypto.sample)
        (sent : HandshakeInitSentState Crypto.sample),
      d.peers.peerByKey (Sample.key 5) = some peer ∧ peer.tunnel.handshake.Pending sent ∧
        d.peers.peerKeyByIndex sent.localIndex = some (Sample.key 5) ∧
        d.peers.peerKeyByIndex (14155770 * 256 + 1) = none := by
  have hcheck : Sample.runAnd 1
      [Sample.peerConfig 5 [Sample.net 0xc0a80000 24 (by decide)] none,
        Sample.peerConfig 7 [Sample.net 0x0a000000 16 (by decide)] none]
      [.tunPacket Sample.innerPacket (by decide), .command (.remove (Sample.key 7)),
        .command (.add (Sample.peerConfig 9 [] none))]
      (fun (_, d) => (d.peers.peerByKey (Sample.key 5)).any fun peer =>
        peer.tunnel.handshake.state.initSent?.isSome) = true := by decide +kernel
  have hbefore : Sample.runAnd 1
      [Sample.peerConfig 5 [Sample.net 0xc0a80000 24 (by decide)] none,
        Sample.peerConfig 7 [Sample.net 0x0a000000 16 (by decide)] none]
      [.tunPacket Sample.innerPacket (by decide)]
      (fun (_, d) => (d.peers.peerByKey (Sample.key 7)).any fun peer =>
        peer.index = 14155770) = true := by decide +kernel
  obtain ⟨start, outputs, d, hnew, hrun, hcheck⟩ := Sample.exists_of_runAnd hcheck
  obtain ⟨start', earlier, d₁, hnew', hrun', hbefore⟩ := Sample.exists_of_runAnd hbefore
  cases hnew.symm.trans hnew'
  obtain ⟨peer, hpeer, hsent⟩ := (Option.any_eq_true _ _).mp hcheck
  obtain ⟨sent, hsent⟩ := Option.isSome_iff_exists.mp hsent
  obtain ⟨removed, hremoved, hindex⟩ := (Option.any_eq_true _ _).mp hbefore
  have hpending : peer.tunnel.handshake.Pending sent := .inl (Handshake.initSent?_eq_some.mp hsent)
  obtain ⟨hfound, hnobody⟩ := run_indexes_attributed .alloc _ Sample.resources Sample.draws
    Sample.clock Sample.secrets start hnew _ outputs hrun
  refine ⟨d, peer, sent, hpeer, hpending, (hfound _ peer hpeer).2.1 sent hpending, ?_⟩
  refine hnobody [_] [_] earlier d₁ _ removed rfl hrun' hremoved _ ?_
  rw [of_decide_eq_true hindex]
  decide

end Device

end Tendrilix
