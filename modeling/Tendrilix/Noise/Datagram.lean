import Tendrilix.Noise.SessionSpec

/-!
# Transport datagrams

The bytes that a session writes for a plaintext, how they are parsed, and what a session with the
matching key makes of them.
-/

namespace Tendrilix.Noise

open Bytes ReplayWindow

variable {K : Crypto} {N BYTES : ℕ}

namespace Session

variable {s s' : Session} {packetType : MessageType} {src packet : Bytes} {dstLen : ℕ}

def padded (src : Bytes) : Bytes := src ++ zeros (paddedLen src.length - src.length)

def sealedBytes (K : Crypto) (s : Session) (src : Bytes) : Bytes :=
  (K.encrypt s.sendingKey (nonceOf s.sendingKeyCounter) [] (padded src)).1 ++
    (K.encrypt s.sendingKey (nonceOf s.sendingKeyCounter) [] (padded src)).2

def datagram (K : Crypto) (s : Session) (packetType : MessageType) (src : Bytes) : Bytes :=
  toLe 4 packetType ++ toLe 4 s.sendingIndex ++ toLe 8 s.sendingKeyCounter ++ s.sealedBytes K src

def dataOf (K : Crypto) (s : Session) (src : Bytes) : Data where
  receiverIdx := ofLe (toLe 4 s.sendingIndex)
  counter := s.sendingKeyCounter
  encryptedEncapsulatedPacket := s.sealedBytes K src

def advance (s : Session) : Session := { s with sendingKeyCounter := s.sendingKeyCounter + 1 }

theorem le_paddedLen (len : ℕ) : len ≤ paddedLen len := by
  rw [paddedLen]
  split
  · omega
  · dsimp only
    split
    · omega
    · exact le_rfl

theorem paddedLen_le_max (len : ℕ) : paddedLen len ≤ max len mtu := by
  rw [paddedLen]
  split
  · exact Nat.zero_le _
  · dsimp only
    split
    · rename_i hfits
      exact hfits.trans (le_max_right _ _)
    · exact le_max_left _ _

theorem paddedLen_le_mtu {len : ℕ} (h : len ≤ mtu) : paddedLen len ≤ mtu :=
  (paddedLen_le_max len).trans (max_le h le_rfl)

theorem length_padded (src : Bytes) : (padded src).length = paddedLen src.length := by
  have hle := le_paddedLen src.length
  rw [padded, List.length_append, length_zeros]
  omega

theorem length_sealedBytes (K : Crypto) (s : Session) (src : Bytes) :
    (s.sealedBytes K src).length = paddedLen src.length + aeadSize := by
  rw [sealedBytes, List.length_append, K.length_encrypt, K.length_tag, length_padded]
  rfl

theorem length_datagram (K : Crypto) (s : Session) (packetType : MessageType) (src : Bytes) :
    (s.datagram K packetType src).length = 32 + paddedLen src.length := by
  simp only [datagram, List.length_append, length_toLe, length_sealedBytes, aeadSize]
  omega

theorem formatPacketDataWithType_eq (hroom : 32 + paddedLen src.length ≤ dstLen)
    (hcounter : s.sendingKeyCounter < rejectAfterMessages) :
    s.formatPacketDataWithType K packetType src dstLen =
      .ok (some (s.datagram K packetType src), s.advance) := by
  have hdst : ¬dstLen < dataOffset + paddedLen src.length + aeadSize := by
    simp only [dataOffset, aeadSize]
    omega
  rw [formatPacketDataWithType, if_neg hdst, if_neg (Nat.not_le.mpr hcounter)]
  simp only [datagram, sealedBytes, padded, advance, List.append_assoc]

theorem formatPacketDataWithType_some
    (call : s.formatPacketDataWithType K packetType src dstLen = .ok (some packet, s')) :
    packet = s.datagram K packetType src ∧ s' = s.advance ∧
      s.sendingKeyCounter < rejectAfterMessages ∧ 32 + paddedLen src.length ≤ dstLen := by
  rw [formatPacketDataWithType] at call
  split at call
  · cases call
  rename_i hroom
  split at call
  · cases call
  rename_i hcounter
  cases call
  simp only [dataOffset, aeadSize] at hroom
  refine ⟨?_, rfl, Nat.lt_of_not_le hcounter, by omega⟩
  simp only [datagram, sealedBytes, padded, List.append_assoc]

/-! ### Parsing -/

theorem rejectAfterMessages_lt : rejectAfterMessages < 256 ^ 8 := by decide

theorem slice_datagram (packetType : MessageType) :
    slice (s.datagram K packetType src) 0 4 = toLe 4 packetType := by
  have htag := length_toLe 4 packetType
  simp only [datagram, List.append_assoc]
  rw [slice_append_left htag.ge, slice_self htag.symm]

theorem dataOf_receiverIdx (K : Crypto) (src : Bytes) (hidx : s.sendingIndex < 2 ^ 32) :
    (s.dataOf K src).receiverIdx = s.sendingIndex := ofLe_toLe hidx

section Parse

variable (hcounter : s.sendingKeyCounter < rejectAfterMessages)
include hcounter

theorem parse_datagram (packetType : MessageType) :
    Data.parse (s.datagram K packetType src) = s.dataOf K src := by
  have htag := length_toLe 4 packetType
  have hindex := length_toLe 4 s.sendingIndex
  have hcount := length_toLe 8 s.sendingKeyCounter
  have hreadCount : ofLe (toLe 8 s.sendingKeyCounter) = s.sendingKeyCounter :=
    ofLe_toLe (hcounter.trans rejectAfterMessages_lt)
  have hhead : (toLe 4 packetType ++ toLe 4 s.sendingIndex ++ toLe 8 s.sendingKeyCounter).length =
      16 := by simp
  have hpayload : (s.datagram K packetType src).drop 16 = s.sealedBytes K src :=
    List.drop_left' hhead
  rw [Data.parse, hpayload]
  simp only [datagram, List.append_assoc]
  simp (disch := omega) only [slice_append_left, slice_append_right, slice_self, htag, hindex,
    Nat.reduceSub]
  rw [hreadCount]
  rfl

theorem parseIncomingPacket_data :
    parseIncomingPacket (s.datagram K MessageType.data src) = .ok (.data (s.dataOf K src)) := by
  have htype : ofLe (toLe 4 MessageType.data) = MessageType.data := by decide
  rw [parseIncomingPacket, length_datagram, slice_datagram, htype, parse_datagram hcounter]
  simp [MessageType.data, MessageType.handshakeInit, MessageType.handshakeResp,
    MessageType.cookieReply, dataOverheadSz]
  omega

theorem parseIncomingPacket_relayData :
    parseIncomingPacket (s.datagram K MessageType.relayData src) =
      .ok (.relayData (s.dataOf K src)) := by
  have htype : ofLe (toLe 4 MessageType.relayData) = MessageType.relayData := by decide
  rw [parseIncomingPacket, length_datagram, slice_datagram, htype, parse_datagram hcounter]
  simp [MessageType.data, MessageType.handshakeInit, MessageType.handshakeResp,
    MessageType.cookieReply, MessageType.relayData, dataOverheadSz]
  omega

end Parse

/-! ### Opening -/

theorem decrypt_dataOf (hK : K.Lawful) (s : Session) (src : Bytes) :
    K.decrypt s.sendingKey (nonceOf (s.dataOf K src).counter) []
      ((s.dataOf K src).encryptedEncapsulatedPacket.take
        ((s.dataOf K src).encryptedEncapsulatedPacket.length - aeadSize))
      ((s.dataOf K src).encryptedEncapsulatedPacket.drop
        ((s.dataOf K src).encryptedEncapsulatedPacket.length - aeadSize)) =
      some (padded src) := by
  have hct : (K.encrypt s.sendingKey (nonceOf s.sendingKeyCounter) [] (padded src)).1.length =
      (s.sealedBytes K src).length - aeadSize := by
    rw [length_sealedBytes, Nat.add_sub_cancel, K.length_encrypt, length_padded]
  have htake : (s.sealedBytes K src).take ((s.sealedBytes K src).length - aeadSize) =
      (K.encrypt s.sendingKey (nonceOf s.sendingKeyCounter) [] (padded src)).1 :=
    List.take_left' hct
  have hdrop : (s.sealedBytes K src).drop ((s.sealedBytes K src).length - aeadSize) =
      (K.encrypt s.sendingKey (nonceOf s.sendingKeyCounter) [] (padded src)).2 :=
    List.drop_left' hct
  change K.decrypt s.sendingKey (nonceOf s.sendingKeyCounter) []
    ((s.sealedBytes K src).take ((s.sealedBytes K src).length - aeadSize))
    ((s.sealedBytes K src).drop ((s.sealedBytes K src).length - aeadSize)) = _
  rw [htake, hdrop, hK.decrypt_encrypt]

/-- The receiving window stands for the counters heard, and counts them. -/
structure Heard (s : Session) (seen : Finset ℕ) : Prop where
  tracks : Tracks s.receivingKeyCounter seen
  count : s.receivingKeyCounter.receiveCnt = seen.card

theorem Heard.card_le {seen : Finset ℕ} (h : s.Heard seen) : seen.card ≤ rejectAfterMessages := by
  have hsub : seen ⊆ Finset.range (nextOf seen) := fun c hc =>
    Finset.mem_range.mpr (lt_nextOf hc)
  calc seen.card ≤ (Finset.range (nextOf seen)).card := Finset.card_le_card hsub
    _ = s.receivingKeyCounter.next := by rw [Finset.card_range, h.tracks.next_eq]
    _ ≤ rejectAfterMessages := h.tracks.next_le

theorem Heard.mark {seen : Finset ℕ} {counter : ℕ} (h : s.Heard seen)
    (hcounter : counter < rejectAfterMessages) (hacc : Acceptable seen counter) :
    ∃ v, s.receivingCounterMark counter = .ok (.ok (), { s with receivingKeyCounter := v }) ∧
      Heard { s with receivingKeyCounter := v } (insert counter seen) := by
  obtain ⟨r, v, hcall, hmarked⟩ := markDidReceive_spec h.tracks hcounter
  have hr := hmarked.accepts_iff.mpr hacc
  have hcnt : v.receiveCnt = seen.card := hmarked.receiveCnt_eq.trans h.count
  have hadd : addU64 v.receiveCnt 1 = .ok (seen.card + 1) := by
    have hle := h.card_le
    rw [rejectAfterMessages_eq] at hle
    rw [hcnt, addU64_eq (by omega)]
  subst hr
  rw [receivingCounterMark, hcall]
  simp only [ok_bind, hadd, pure_eq_ok]
  refine ⟨_, rfl, (hmarked.tracks rfl).setReceiveCnt _, ?_⟩
  exact (Finset.card_insert_of_notMem hacc.1).symm

theorem receivePacketData_dataOf {r : Session} {seen : Finset ℕ} (hK : K.Lawful)
    (hkey : r.receivingKey = s.sendingKey) (hindex : (s.dataOf K src).receiverIdx = r.receivingIndex)
    (hcounter : s.sendingKeyCounter < rejectAfterMessages) (hheard : r.Heard seen)
    (hacc : Acceptable seen s.sendingKeyCounter)
    (hroom : paddedLen src.length + aeadSize ≤ dstLen) :
    ∃ v, r.receivePacketData K (s.dataOf K src) dstLen =
        .ok (.ok (padded src), { r with receivingKeyCounter := v }) ∧
      Heard { r with receivingKeyCounter := v } (insert s.sendingKeyCounter seen) := by
  obtain ⟨quick, hquick, hiff⟩ := willAccept_spec hheard.tracks hcounter
  obtain ⟨v, hmark, hheard'⟩ := hheard.mark hcounter hacc
  have hopen := decrypt_dataOf hK s src
  rw [← hkey] at hopen
  have hlen : (s.dataOf K src).encryptedEncapsulatedPacket.length =
      paddedLen src.length + aeadSize := length_sealedBytes K s src
  have hsame : ¬(s.dataOf K src).receiverIdx ≠ r.receivingIndex := not_not.mpr hindex
  have hfresh : ¬rejectAfterMessages ≤ (s.dataOf K src).counter := Nat.not_le.mpr hcounter
  rw [receivePacketData, if_neg (by omega), if_neg hsame, if_neg hfresh]
  simp only [receivingCounterQuickCheck, dataOf] at hquick ⊢
  rw [hquick, hiff.mpr hacc]
  have hlong : ¬(s.sealedBytes K src).length < aeadSize := by
    rw [length_sealedBytes]
    omega
  simp only [dataOf] at hopen
  simp only [ok_bind, hlong, if_false, hopen, hmark, pure_eq_ok]
  exact ⟨v, rfl, hheard'⟩

theorem receivePacketData_plaintext {p : Data} {plaintext : Bytes}
    (call : s.receivePacketData K p dstLen = .ok (.ok plaintext, s')) :
    K.decrypt s.receivingKey (nonceOf p.counter) []
      (p.encryptedEncapsulatedPacket.take (p.encryptedEncapsulatedPacket.length - aeadSize))
      (p.encryptedEncapsulatedPacket.drop (p.encryptedEncapsulatedPacket.length - aeadSize)) =
        some plaintext := by
  rw [receivePacketData] at call
  split at call
  · cases call
  split at call
  · cases call
  split at call
  · cases call
  obtain ⟨quick, -, call⟩ := bind_ok_iff.mp call
  cases quick with
  | error e => cases call
  | ok u =>
    dsimp only at call
    split at call
    · cases call
    split at call
    · cases call
    · rename_i plain hplain
      obtain ⟨⟨marked, s₁⟩, -, call⟩ := bind_ok_iff.mp call
      cases marked with
      | error e => cases call
      | ok u =>
        cases call
        exact hplain

theorem receivePacketData_sealed {r r' : Session} {plaintext : Bytes} (hK : K.Lawful)
    (hkey : r.receivingKey = s.sendingKey)
    (call : r.receivePacketData K (s.dataOf K src) dstLen = .ok (.ok plaintext, r')) :
    plaintext = padded src := by
  have hopen := receivePacketData_plaintext call
  rw [hkey, decrypt_dataOf hK] at hopen
  exact (Option.some.inj hopen).symm

end Session

end Tendrilix.Noise
