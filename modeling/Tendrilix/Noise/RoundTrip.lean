import Tendrilix.Noise.Datagram
import Tendrilix.Noise.SessionRing

/-!
# The transport round trip

What one end of a session encapsulates, the other end delivers unchanged, in whatever order the
datagrams arrive, as long as none arrives twice or falls out of the receiving window.
-/

namespace Tendrilix.Noise

open Bytes ReplayWindow IpPacket

variable {K : Crypto} {N BYTES : ℕ}

/-- An IP packet whose header declares the packet's own length. -/
inductive WellFormed (packet : Bytes) : Prop
  | v4 (hversion : version packet = 4) (hmin : ipv4MinHeaderSize ≤ ipv4HeaderLen packet)
      (hfits : ipv4HeaderLen packet ≤ packet.length)
      (htotal : ofBe (slice packet 2 4) = packet.length)
  | v6 (hversion : version packet = 6) (hmin : ipv6MinHeaderSize ≤ packet.length)
      (htotal : ofBe (slice packet 4 6) + ipv6MinHeaderSize = packet.length)

/-- What the interface is given for a packet. -/
def delivered (packet : Bytes) : TunnResult :=
  if version packet = 4 then
    .writeToInterfaceV4 packet (BitVec.ofNat 32 (ofBe (slice packet 12 16)))
  else .writeToInterfaceV6 packet (BitVec.ofNat 128 (ofBe (slice packet 8 24)))

/-- A delivery is the part of the plaintext that its header declares, under the family of its
version. -/
def Delivers (plaintext : Bytes) : TunnResult → Prop
  | .writeToInterfaceV4 packet _ =>
    packet <+: plaintext ∧ version plaintext = 4 ∧ packet.length = ofBe (slice plaintext 2 4)
  | .writeToInterfaceV6 packet _ =>
    packet <+: plaintext ∧ version plaintext = 6 ∧
      packet.length = ofBe (slice plaintext 4 6) + ipv6MinHeaderSize
  | .writeToNetwork _ => False
  | _ => True

/-! ### Padding does not reach the header -/

section Padding

variable {packet rest : Bytes}

theorem WellFormed.length_pos (h : WellFormed packet) : 20 ≤ packet.length := by
  cases h with
  | v4 hversion hmin hfits htotal => exact hmin.trans hfits
  | v6 hversion hmin htotal => exact (by decide : 20 ≤ ipv6MinHeaderSize).trans hmin

theorem head?_append_of_length (h : 20 ≤ packet.length) :
    (packet ++ rest).head? = packet.head? := by
  cases packet with
  | nil => exact absurd h (by simp)
  | cons b bs => rfl

theorem version_append (h : 20 ≤ packet.length) : version (packet ++ rest) = version packet := by
  rw [version, head?_append_of_length h, version]

theorem ipv4HeaderLen_append (h : 20 ≤ packet.length) :
    ipv4HeaderLen (packet ++ rest) = ipv4HeaderLen packet := by
  rw [ipv4HeaderLen, head?_append_of_length h, ipv4HeaderLen]

theorem WellFormed.declaredLen (h : WellFormed packet) (rest : Bytes) :
    Tunn.declaredLen (packet ++ rest) = some packet.length := by
  have hlong := h.length_pos
  have hle : packet.length ≤ (packet ++ rest).length := by simp
  rw [Tunn.declaredLen, version_append hlong, ipv4HeaderLen_append hlong]
  cases h with
  | v4 hversion hmin hfits htotal =>
    have hread : ofBe (slice (packet ++ rest) 2 4) = packet.length := by
      rw [slice_append_left (by omega), htotal]
    have hshort : ¬(packet ++ rest).length < ipv4MinHeaderSize :=
      Nat.not_lt.mpr (hlong.trans hle)
    have hheader : ¬(ipv4HeaderLen packet < ipv4MinHeaderSize ∨
        (packet ++ rest).length < ipv4HeaderLen packet) := by
      omega
    simp only [hversion, hshort, hheader, hread, if_true, if_false, Nat.not_lt.mpr hfits]
  | v6 hversion hmin htotal =>
    have hread : ofBe (slice (packet ++ rest) 4 6) + ipv6MinHeaderSize = packet.length := by
      rw [slice_append_left (by omega), htotal]
    have hshort : ¬(packet ++ rest).length < ipv6MinHeaderSize := Nat.not_lt.mpr (hmin.trans hle)
    simp only [hversion, hshort, hread, if_true, if_false, Nat.reduceEqDiff]

theorem WellFormed.srcAddress (h : WellFormed packet) (rest : Bytes) :
    srcAddress (packet ++ rest) =
      if version packet = 4 then some (.v4 (BitVec.ofNat 32 (ofBe (slice packet 12 16))))
      else some (.v6 (BitVec.ofNat 128 (ofBe (slice packet 8 24)))) := by
  have hlong := h.length_pos
  have hle : packet.length ≤ (packet ++ rest).length := by simp
  have hne : packet ++ rest ≠ [] := by
    intro heq
    rw [heq, List.length_nil] at hle
    omega
  rw [IpPacket.srcAddress, address, if_neg hne, version_append hlong]
  cases h with
  | v4 hversion hmin hfits htotal =>
    have hvalid : (validIpv4HeaderLen (packet ++ rest)).isSome = true := by
      have hshort : ¬(packet ++ rest).length < ipv4MinHeaderSize :=
        Nat.not_lt.mpr (hlong.trans hle)
      have hheader : ¬(ipv4HeaderLen packet < ipv4MinHeaderSize ∨
          (packet ++ rest).length < ipv4HeaderLen packet) := by
        omega
      rw [validIpv4HeaderLen, if_neg hshort, ipv4HeaderLen_append hlong]
      simp only [hheader, if_false, Option.isSome_some]
    rw [if_pos ⟨hversion, hvalid⟩, if_pos hversion, slice_append_left (by omega)]
  | v6 hversion hmin htotal =>
    have hfour : version packet ≠ 4 := by omega
    have hmin' : 40 ≤ packet.length := hmin
    rw [if_neg (fun hand => hfour hand.1), if_pos ⟨hversion, hmin.trans hle⟩, if_neg hfour,
      slice_append_left (by omega)]

end Padding

namespace Tunn

variable {a b t t' : Tunn K} {w w' : World K N BYTES} {s r : Session} {seen : Finset ℕ}
  {src : Bytes} {dstLen : ℕ}

theorem validateDecapsulatedPacket_append (t : Tunn K) (h : WellFormed src) (rest : Bytes) :
    (t.validateDecapsulatedPacket (src ++ rest)).1 = delivered src := by
  have hlong := h.length_pos
  have hne : src ++ rest ≠ [] := by
    intro heq
    rw [(List.append_eq_nil_iff.mp heq).1, List.length_nil] at hlong
    omega
  have hfits : ¬(src ++ rest).length < src.length := by simp
  have htake : (src ++ rest).take src.length = src := List.take_left
  rw [validateDecapsulatedPacket, if_neg hne, h.srcAddress, h.declaredLen, delivered]
  by_cases hversion : version src = 4
  · simp only [hversion, if_true, if_neg hfits, htake]
  · simp only [hversion, if_false, if_neg hfits, htake]

theorem declaredLen_v4 {plaintext : Bytes} {len : ℕ} (hversion : version plaintext = 4)
    (h : declaredLen plaintext = some len) : len = ofBe (slice plaintext 2 4) := by
  rw [declaredLen, if_pos hversion] at h
  split at h
  · cases h
  dsimp only at h
  split at h
  · cases h
  split at h
  · cases h
  · exact (Option.some.inj h).symm

theorem declaredLen_v6 {plaintext : Bytes} {len : ℕ} (hversion : version plaintext = 6)
    (h : declaredLen plaintext = some len) :
    len = ofBe (slice plaintext 4 6) + ipv6MinHeaderSize := by
  have hfour : version plaintext ≠ 4 := by omega
  rw [declaredLen, if_neg hfour, if_pos hversion] at h
  split at h
  · cases h
  · exact (Option.some.inj h).symm

theorem validateDecapsulatedPacket_delivers (t : Tunn K) (plaintext : Bytes) :
    Delivers plaintext (t.validateDecapsulatedPacket plaintext).1 := by
  rw [validateDecapsulatedPacket]
  split
  · trivial
  split
  · trivial
  rename_i addr haddr
  split
  · trivial
  rename_i computedLen hdeclared
  split
  · trivial
  rename_i hfits
  have hlen : (plaintext.take computedLen).length = computedLen := by
    rw [List.length_take]
    omega
  rw [IpPacket.srcAddress, address] at haddr
  split at haddr
  · cases haddr
  split at haddr
  · rename_i hv4
    cases haddr
    exact ⟨List.take_prefix _ _, hv4.1, hlen.trans (declaredLen_v4 hv4.1 hdeclared)⟩
  split at haddr
  · rename_i hv6
    cases haddr
    exact ⟨List.take_prefix _ _, hv6.1, hlen.trans (declaredLen_v6 hv6.1 hdeclared)⟩
  · cases haddr

/-! ### Sending -/

theorem encapsulate_eq (hs : t.currentSession = some s) (w : World K N BYTES)
    (hcounter : s.sendingKeyCounter < rejectAfterMessages)
    (hroom : 32 + Session.paddedLen src.length ≤ dstLen) :
    ∃ t' w', t.encapsulate src dstLen w =
        .ok (.writeToNetwork (s.datagram K MessageType.data src), t', w') ∧
      t'.currentSession = some s.advance := by
  have hformat : s.formatPacketDataWithType K MessageType.data src dstLen =
      .ok (some (s.datagram K MessageType.data src), s.advance) :=
    Session.formatPacketDataWithType_eq hroom hcounter
  have hseal : t.sealWithCurrent MessageType.data src dstLen w =
      .ok (some (s.datagram K MessageType.data src), t.setSession t.current s.advance,
        { w with sealed := (s.sendingKey, s.sendingKeyCounter) :: w.sealed }) := by
    rw [sealWithCurrent, hs]
    simp only [World.sealPacket, hformat, ok_bind, pure_eq_ok]
  refine ⟨_, _, by rw [encapsulate, encapsulateWithType, hseal]; rfl, ?_⟩
  have hcurrent : ((t.setSession t.current s.advance).tickSent src).current = t.current := by
    rw [tickSent]
    split <;> rfl
  rw [currentSession, tickSent_sessions, hcurrent]
  exact Function.update_self _ _ _

def sent (K : Crypto) : Session → List Bytes → List Bytes
  | _, [] => []
  | s, src :: rest => s.datagram K MessageType.data src :: sent K s.advance rest

theorem run_encapsulate (packets : List Bytes) (hs : t.currentSession = some s)
    (w : World K N BYTES) (hcount : s.sendingKeyCounter + packets.length ≤ rejectAfterMessages)
    (hroom : ∀ src ∈ packets, 32 + Session.paddedLen src.length ≤ dstLen) :
    ∃ s', Machine.run step (t, w) (packets.map (Op.encapsulate · dstLen)) =
      .ok ((sent K s packets).map fun d => .tunn (.writeToNetwork d), s') := by
  induction packets generalizing t s w with
  | nil => exact ⟨_, rfl⟩
  | cons src rest ih =>
    rw [List.length_cons] at hcount
    obtain ⟨t', w', hcall, hs'⟩ := encapsulate_eq hs w (by omega) (hroom src (by simp))
    have hcount' : s.advance.sendingKeyCounter + rest.length ≤ rejectAfterMessages := by
      change s.sendingKeyCounter + 1 + rest.length ≤ _
      omega
    obtain ⟨s', hrun⟩ := ih hs' w' hcount' fun src' hsrc' => hroom src' (by simp [hsrc'])
    refine ⟨s', ?_⟩
    rw [List.map_cons, Machine.run, step, hcall]
    simp only [ok_bind, pure_eq_ok, hrun, sent, List.map_cons]

theorem getElem?_sent (packets : List Bytes) (s : Session) (i : ℕ) :
    (sent K s packets)[i]? = packets[i]?.map fun src =>
      Session.datagram K { s with sendingKeyCounter := s.sendingKeyCounter + i }
        MessageType.data src := by
  induction packets generalizing s i with
  | nil => simp [sent]
  | cons src rest ih =>
    cases i with
    | zero => simp [sent]
    | succ i =>
      rw [sent, List.getElem?_cons_succ, List.getElem?_cons_succ, ih]
      have hcount : s.sendingKeyCounter + 1 + i = s.sendingKeyCounter + (i + 1) := by omega
      simp only [Session.advance, hcount]

/-! ### Receiving -/

/-- The tunnel opens what is sealed for this index under this key, and has heard these counters. -/
def Listens (t : Tunn K) (index : ℕ) (key : Bytes) (seen : Finset ℕ) : Prop :=
  ∃ r, t.sessions (slotOf index) = some r ∧ r.receivingIndex = index ∧ r.receivingKey = key ∧
    r.Heard seen

theorem decryptRawData_dataOf (hK : K.Lawful) (hidx : s.sendingIndex < 2 ^ 32)
    (hlistens : t.Listens s.sendingIndex s.sendingKey seen)
    (hcounter : s.sendingKeyCounter < rejectAfterMessages)
    (hacc : Acceptable seen s.sendingKeyCounter)
    (hroom : Session.paddedLen src.length + aeadSize ≤ dstLen) :
    ∃ t', t.decryptRawData (s.dataOf K src) dstLen = .ok (.ok (Session.padded src), t') ∧
      t'.Listens s.sendingIndex s.sendingKey (insert s.sendingKeyCounter seen) := by
  obtain ⟨r, hr, hindex, hkey, hheard⟩ := hlistens
  have hread := Session.dataOf_receiverIdx K src hidx
  obtain ⟨v, hreceive, hheard'⟩ :=
    Session.receivePacketData_dataOf hK hkey (hread.trans hindex.symm) hcounter hheard hacc hroom
  rw [decryptRawData]
  dsimp only
  rw [hread, hr]
  simp only [hreceive, ok_bind, pure_eq_ok]
  refine ⟨_, rfl, { r with receivingKeyCounter := v }, ?_, hindex, hkey, hheard'⟩
  change ((t.setSession s.sendingIndex _).setCurrentSession s.sendingIndex).sessions _ = _
  rw [setCurrentSession_sessions]
  exact Function.update_self _ _ _

theorem step_delivers (hK : K.Lawful) (w : World K N BYTES) (hidx : s.sendingIndex < 2 ^ 32)
    (hlistens : t.Listens s.sendingIndex s.sendingKey seen)
    (hcounter : s.sendingKeyCounter < rejectAfterMessages)
    (hacc : Acceptable seen s.sendingKeyCounter) (hsrc : WellFormed src)
    (hroom : Session.paddedLen src.length + aeadSize ≤ dstLen) :
    ∃ t', step (t, w) (.handleVerifiedPacket (s.datagram K MessageType.data src) dstLen) =
        .ok (.tunn (delivered src), t', w) ∧
      t'.Listens s.sendingIndex s.sendingKey (insert s.sendingKeyCounter seen) := by
  obtain ⟨t', hopen, r, hr, hrest⟩ := decryptRawData_dataOf hK hidx hlistens hcounter hacc hroom
  have hdelivered := validateDecapsulatedPacket_append t' hsrc
    (zeros (Session.paddedLen src.length - src.length))
  refine ⟨(t'.validateDecapsulatedPacket (Session.padded src)).2, ?_, r, ?_, hrest⟩
  · rw [step, Session.parseIncomingPacket_data hcounter]
    simp only [handleVerifiedPacket, handleData, hopen, ok_bind, pure_eq_ok, TunnResult.ofOutcome]
    rw [← hdelivered]
    rfl
  · rw [validateDecapsulatedPacket_sessions]
    exact hr

theorem acceptable_of_window {c : ℕ} (hnew : c ∉ seen) (hwindow : ∀ c' ∈ seen, c' ≤ c + 255) :
    Acceptable seen c := by
  refine ⟨hnew, Finset.sup_le fun c' hc' => ?_⟩
  have hle := hwindow c' hc'
  omega

section Deliver

variable {packets : List Bytes} {datagrams : Fin packets.length → Bytes}

theorem run_delivers (hK : K.Lawful) (hidx : s.sendingIndex < 2 ^ 32)
    (hpackets : ∀ src ∈ packets, WellFormed src ∧
      Session.paddedLen src.length + aeadSize ≤ dstLen)
    (hdatagrams : ∀ i : Fin packets.length, s.sendingKeyCounter + i < rejectAfterMessages →
      datagrams i = Session.datagram K { s with sendingKeyCounter := s.sendingKeyCounter + i }
        MessageType.data packets[i])
    (order : List (Fin packets.length)) (hnodup : order.Nodup)
    (hlasts : ∀ i ∈ order, s.sendingKeyCounter + i < rejectAfterMessages)
    (hwindow : order.Pairwise fun j i => j.val ≤ i.val + 255) (w : World K N BYTES)
    (hlistens : t.Listens s.sendingIndex s.sendingKey seen)
    (hseen : ∀ i ∈ order, s.sendingKeyCounter + i ∉ seen ∧
      ∀ c ∈ seen, c ≤ s.sendingKeyCounter + i + 255) :
    ∃ s', Machine.run step (t, w) (order.map fun i => .handleVerifiedPacket (datagrams i) dstLen) =
      .ok (order.map fun i => .tunn (delivered packets[i]), s') := by
  induction order generalizing t seen with
  | nil => exact ⟨_, rfl⟩
  | cons i order ih =>
    obtain ⟨hi, hnodup⟩ := List.nodup_cons.mp hnodup
    obtain ⟨hfirst, hwindow⟩ := List.pairwise_cons.mp hwindow
    obtain ⟨hsrc, hroom⟩ := hpackets packets[i] (List.getElem_mem _)
    have hlast := hlasts i (by simp)
    have hold := hseen i (by simp)
    obtain ⟨t', hstep, hlistens'⟩ :=
      step_delivers (s := { s with sendingKeyCounter := s.sendingKeyCounter + i }) hK w hidx
        hlistens hlast (acceptable_of_window hold.1 hold.2) hsrc hroom
    rw [← hdatagrams i hlast] at hstep
    have hseen' : ∀ j ∈ order, s.sendingKeyCounter + j ∉ insert (s.sendingKeyCounter + i) seen ∧
        ∀ c ∈ insert (s.sendingKeyCounter + i.val) seen, c ≤ s.sendingKeyCounter + j + 255 := by
      intro j hj
      have hne : i ≠ j := fun heq => hi (heq ▸ hj)
      have hle := hfirst j hj
      obtain ⟨hnew, hbelow⟩ := hseen j (by simp [hj])
      constructor
      · rw [Finset.mem_insert]
        intro hor
        rcases hor with heq | hmem
        · exact hne (Fin.ext (by omega))
        · exact hnew hmem
      · intro c hc
        rcases Finset.mem_insert.mp hc with heq | hmem
        · omega
        · exact hbelow c hmem
    obtain ⟨s', hrun⟩ := ih hnodup (fun j hj => hlasts j (by simp [hj])) hwindow hlistens' hseen'
    refine ⟨s', ?_⟩
    rw [List.map_cons, Machine.run, hstep]
    simp only [ok_bind, hrun, pure_eq_ok, List.map_cons]

end Deliver

structure Uses (t : Tunn K) (s : Session) : Prop where
  current : t.currentSession = some s
  slot : slotOf t.current = slotOf s.receivingIndex

end Tunn

/-- Each session has the keys and the index of the other. -/
structure Session.Mirrors (s r : Session) : Prop where
  sendingKey_eq : s.sendingKey = r.receivingKey
  receivingKey_eq : s.receivingKey = r.sendingKey
  sendingIndex_eq : s.sendingIndex = r.receivingIndex
  receivingIndex_eq : s.receivingIndex = r.sendingIndex

/-- `r` has heard nothing that `s` has yet to send. -/
def Session.Unheard (s r : Session) : Prop :=
  ∃ seen, r.Heard seen ∧ ∀ c ∈ seen, c < s.sendingKeyCounter

theorem Session.unheard_of_new {s r : Session} (h : r.receivingKeyCounter = {}) : s.Unheard r := by
  refine ⟨∅, ⟨?_, ?_⟩, fun c hc => absurd hc (Finset.notMem_empty c)⟩
  · rw [h]
    exact tracks_empty
  · rw [h]
    rfl

namespace Tunn

variable {a b : Tunn K} {sa sb : Session} {packets : List Bytes} {dstA dstB : ℕ}

/-- The packets that one tunnel encapsulates for a mirrored session are delivered by the other with
their own bytes and source, in any order inside the window. Whatever is delivered at all is what
the header of the plaintext declares. -/
theorem transport_roundTrip {N' BYTES' : ℕ} (hK : K.Lawful) (ha : a.Uses sa) (hb : b.Uses sb)
    (hmirrors : sa.Mirrors sb) (hnew : sa.Unheard sb) (hidx : sb.receivingIndex < 2 ^ 32)
    (wa : World K N BYTES) (wb : World K N' BYTES')
    (hpackets : ∀ src ∈ packets, WellFormed src ∧ src.length ≤ mtu)
    (hdstA : mtu + dataOverheadSz ≤ dstA) (hdstB : mtu + dataOverheadSz ≤ dstB) :
    (∃ datagrams : Fin packets.length → Bytes,
      (∀ i : Fin packets.length, sa.sendingKeyCounter + i < rejectAfterMessages →
        ∃ replies s, Machine.run step (a, wa)
            ((packets.take (i + 1)).map (.encapsulate · dstA)) = .ok (replies, s) ∧
          replies[i.val]? = some (.tunn (.writeToNetwork (datagrams i)))) ∧
      ∀ order : List (Fin packets.length), order.Nodup →
        (∀ i ∈ order, sa.sendingKeyCounter + i < rejectAfterMessages) →
        order.Pairwise (fun j i => j.val ≤ i.val + 255) →
        ∃ s, Machine.run step (b, wb)
            (order.map fun i => .handleVerifiedPacket (datagrams i) dstB) =
          .ok (order.map fun i => .tunn (delivered packets[i]), s)) ∧
    ∀ (t t₁ t' : Tunn K) (p : Data) (dstLen : ℕ) (plaintext : Bytes) (r : TunnResult),
      t.decryptRawData p dstLen = .ok (.ok plaintext, t₁) →
      t.handleData p dstLen = .ok (.ok r, t') → Delivers plaintext r := by
  constructor
  · refine ⟨fun i => Session.datagram K { sa with sendingKeyCounter := sa.sendingKeyCounter + i }
      MessageType.data packets[i], fun i hlast => ?_, fun order hnodup hlasts hwindow => ?_⟩
    · have hlen : (packets.take (i + 1)).length = i + 1 := by
        rw [List.length_take]
        omega
      have hroom : ∀ src ∈ packets.take (i + 1), 32 + Session.paddedLen src.length ≤ dstA := by
        intro src hsrc
        have hle := Session.paddedLen_le_mtu (hpackets src (List.mem_of_mem_take hsrc)).2
        rw [dataOverheadSz] at hdstA
        omega
      obtain ⟨s, hrun⟩ := run_encapsulate (packets.take (i + 1)) ha.current wa (by omega) hroom
      refine ⟨_, s, hrun, ?_⟩
      rw [List.getElem?_map, getElem?_sent, List.getElem?_take_of_lt (Nat.lt_succ_self _),
        List.getElem?_eq_getElem i.isLt]
      rfl
    · obtain ⟨seen, hheard, hbelow⟩ := hnew
      have hroom : ∀ src ∈ packets, WellFormed src ∧
          Session.paddedLen src.length + aeadSize ≤ dstB := by
        intro src hsrc
        have hle := Session.paddedLen_le_mtu (hpackets src hsrc).2
        rw [dataOverheadSz] at hdstB
        exact ⟨(hpackets src hsrc).1, by rw [aeadSize]; omega⟩
      have hlistens : b.Listens sa.sendingIndex sa.sendingKey seen := by
        refine ⟨sb, ?_, hmirrors.sendingIndex_eq.symm, hmirrors.sendingKey_eq.symm, hheard⟩
        rw [hmirrors.sendingIndex_eq, ← hb.slot]
        exact hb.current
      have hseen : ∀ i ∈ order, sa.sendingKeyCounter + i ∉ seen ∧
          ∀ c ∈ seen, c ≤ sa.sendingKeyCounter + i + 255 := by
        intro i hi
        constructor
        · intro hmem
          have hlt := hbelow _ hmem
          omega
        · intro c hc
          have hlt := hbelow c hc
          omega
      exact run_delivers hK (hmirrors.sendingIndex_eq ▸ hidx) hroom (fun i hi => rfl) order hnodup
        hlasts hwindow wb hlistens hseen
  · intro t t₁ t' p dstLen plaintext r hopen hcall
    rw [handleData, hopen] at hcall
    cases hcall
    exact validateDecapsulatedPacket_delivers t₁ plaintext

end Tunn

namespace Sample

def ipv4Packet : Bytes := [0x45, 0, 0, 20] ++ zeros 8 ++ [10, 0, 0, 1, 10, 0, 0, 2]

def ipv6Packet : Bytes := [0x60, 0, 0, 0, 0, 3, 0, 0] ++ zeros 32 ++ [1, 2, 3]

def talker : Tunn Crypto.sample :=
  { initiator.1.setSession 7 (.new 7 9 [1] [2]) with current := 7 }

def listener : Tunn Crypto.sample :=
  { responder.1.setSession 9 (.new 9 7 [2] [1]) with current := 9 }

end Sample

theorem Tunn.transport_roundTrip_overtaken :
    Crypto.sample.Lawful ∧ Sample.talker.Uses (.new 7 9 [1] [2]) ∧ ∃ first second s,
      Machine.run step (Sample.listener, Sample.world)
          [.handleVerifiedPacket second maxPacketSize, .handleVerifiedPacket first maxPacketSize] =
        .ok ([.tunn (delivered Sample.ipv6Packet), .tunn (delivered Sample.ipv4Packet)], s) := by
  have htalker : Sample.talker.Uses (.new 7 9 [1] [2]) := ⟨rfl, rfl⟩
  have hlistener : Sample.listener.Uses (.new 9 7 [2] [1]) := ⟨rfl, rfl⟩
  have hv4 : WellFormed Sample.ipv4Packet := .v4 (by decide) (by decide) (by decide) (by decide)
  have hv6 : WellFormed Sample.ipv6Packet := .v6 (by decide) (by decide) (by decide)
  have hpackets : ∀ src ∈ [Sample.ipv4Packet, Sample.ipv6Packet],
      WellFormed src ∧ src.length ≤ mtu := by
    intro src hsrc
    rcases List.mem_pair.mp hsrc with rfl | rfl
    · exact ⟨hv4, by decide⟩
    · exact ⟨hv6, by decide⟩
  have hroom : mtu + dataOverheadSz ≤ maxPacketSize := by decide
  obtain ⟨⟨datagrams, -, hrun⟩, -⟩ :=
    transport_roundTrip Crypto.sample_lawful htalker hlistener ⟨rfl, rfl, rfl, rfl⟩
      (Session.unheard_of_new rfl) (by decide) Sample.world Sample.world hpackets hroom hroom
  obtain ⟨s, hs⟩ := hrun [1, 0] (by decide) (by decide) (by decide)
  exact ⟨Crypto.sample_lawful, htalker, datagrams 0, datagrams 1, s, hs⟩

end Tendrilix.Noise
