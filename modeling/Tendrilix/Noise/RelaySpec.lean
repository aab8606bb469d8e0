import Mathlib.Data.List.GetD
import Tendrilix.Noise.Relay

/-!
# Envelopes on their way

An envelope keeps its destination and its inner packet on every hop, and its hop limit goes down by
one. Bytes behind the inner packet change nothing.
-/

namespace Tendrilix.Noise.Relay

open Bytes

variable {bytes rest packet : Bytes} {destination : PublicKey} {dstLen : ℕ} {e e' : Envelope}

namespace Envelope

theorem parse_ok (h : parse bytes = .ok e) :
    e.bytes = bytes ∧ e.innerLen = ofLe (slice bytes 2 4) ∧ bytes.getD 0 0 = envelopeVersion ∧
      bytes.getD 1 0 ≠ 0 := by
  rw [parse] at h
  split at h
  · cases h
  dsimp only at h
  split at h
  · cases h
  rename_i hversion
  split at h
  · cases h
  rename_i hlimit
  split at h
  · cases h
    exact ⟨rfl, rfl, not_not.mp hversion, hlimit⟩
  · cases h

theorem parse_eq (hversion : bytes.getD 0 0 = envelopeVersion) (hlimit : bytes.getD 1 0 ≠ 0)
    (hfits : envelopeHeaderSize + ofLe (slice bytes 2 4) ≤ bytes.length) :
    parse bytes = .ok ⟨bytes, ofLe (slice bytes 2 4), hfits⟩ := by
  have hlong : ¬bytes.length < envelopeHeaderSize := by omega
  rw [parse, if_neg hlong]
  dsimp only
  rw [if_neg (not_not.mpr hversion), if_neg hlimit, dif_pos hfits]

theorem decrementHopLimit_ok (h : e.decrementHopLimit = .ok e') :
    1 < e.hopLimit ∧ e'.bytes = e.bytes.set 1 (e.hopLimit - 1) ∧ e'.innerLen = e.innerLen := by
  rw [decrementHopLimit] at h
  split at h
  · cases h
  · rename_i hlimit
    cases h
    exact ⟨UInt8.not_le.mp hlimit, rfl, rfl⟩

end Envelope

theorem buildEnvelope_ok (h : buildEnvelope dstLen destination packet = .ok bytes) :
    packet.length < 256 ^ 2 ∧ bytes = envelopeVersion :: defaultHopLimit ::
      (toLe 2 packet.length ++ (destination.bytes ++ packet)) := by
  rw [buildEnvelope] at h
  split at h
  · cases h
  split at h
  · cases h
  · cases h
    exact ⟨by omega, rfl⟩

theorem length_buildEnvelope (h : buildEnvelope dstLen destination packet = .ok bytes) :
    bytes.length = envelopeHeaderSize + packet.length := by
  have hkey := destination.length_eq
  rw [(buildEnvelope_ok h).2]
  simp only [List.length_cons, List.length_append, length_toLe, hkey, envelopeHeaderSize]
  omega

theorem length_buildEnvelope_le (h : buildEnvelope dstLen destination packet = .ok bytes) :
    bytes.length ≤ dstLen := by
  rw [length_buildEnvelope h]
  rw [buildEnvelope] at h
  split at h
  · cases h
  split at h
  · cases h
  · rename_i hroom
    exact Nat.not_lt.mp hroom

structure Reads (e : Envelope) (destination : PublicKey) (packet : Bytes) (hopLimit : UInt8) :
    Prop where
  destination_eq : e.destination = destination
  innerPacket_eq : e.innerPacket = packet
  hopLimit_eq : e.hopLimit = hopLimit

theorem Envelope.destination_congr (h : slice e.bytes 4 envelopeHeaderSize =
    slice e'.bytes 4 envelopeHeaderSize) : e.destination = e'.destination := by
  simp only [destination, h]

theorem parse_buildEnvelope (h : buildEnvelope dstLen destination packet = .ok bytes)
    (rest : Bytes) :
    ∃ e, Envelope.parse (bytes ++ rest) = .ok e ∧ Reads e destination packet defaultHopLimit := by
  have hlength := length_buildEnvelope h
  obtain ⟨hshort, hbytes⟩ := buildEnvelope_ok h
  have hkey := destination.length_eq
  have htag := length_toLe 2 packet.length
  have hlen : slice (bytes ++ rest) 2 4 = toLe 2 packet.length := by
    rw [slice_append_left (by rw [hlength, envelopeHeaderSize]; omega), hbytes]
    change slice (toLe 2 packet.length ++ (destination.bytes ++ packet)) 0 2 = _
    rw [slice_append_left htag.ge, slice_self htag.symm]
  have hinner : ofLe (slice (bytes ++ rest) 2 4) = packet.length := by rw [hlen, ofLe_toLe hshort]
  have hfits : envelopeHeaderSize + ofLe (slice (bytes ++ rest) 2 4) ≤ (bytes ++ rest).length := by
    rw [hinner, List.length_append, hlength]
    omega
  have hhop : (bytes ++ rest).getD 1 0 = defaultHopLimit := by
    rw [hbytes]
    rfl
  have hpositive : defaultHopLimit ≠ 0 := by decide
  refine ⟨_, Envelope.parse_eq (by rw [hbytes]; rfl) (hhop ▸ hpositive) hfits, ?_, ?_, hhop⟩
  · have hread : slice (bytes ++ rest) 4 envelopeHeaderSize = destination.bytes := by
      rw [slice_append_left (by omega), hbytes]
      change slice (toLe 2 packet.length ++ (destination.bytes ++ packet)) 2 34 = _
      rw [slice_append_right htag.le, htag, slice_append_left (by omega), slice_self (by omega)]
    simp only [Envelope.destination, hread]
    exact destination.toPublicKey_toKeyBytes
  · have hheader : (envelopeVersion :: defaultHopLimit :: (toLe 2 packet.length ++
        destination.bytes)).length = envelopeHeaderSize := by
      simp only [List.length_cons, List.length_append, htag, hkey, envelopeHeaderSize]
    have hsplit : bytes = (envelopeVersion :: defaultHopLimit :: (toLe 2 packet.length ++
        destination.bytes)) ++ packet := by
      rw [hbytes, List.cons_append, List.cons_append, List.append_assoc]
    rw [Envelope.innerPacket]
    dsimp only
    rw [hinner, slice_append_left (by omega), hsplit, slice_append_right hheader.le, hheader]
    exact slice_self (by omega)

theorem parse_decremented (hparse : Envelope.parse bytes = .ok e)
    (hdecrement : e.decrementHopLimit = .ok e') (rest : Bytes) :
    ∃ e'', Envelope.parse (e'.bytes ++ rest) = .ok e'' ∧
      Reads e'' e.destination e.innerPacket (e.hopLimit - 1) := by
  obtain ⟨hbytes, hinner, hversion, -⟩ := Envelope.parse_ok hparse
  obtain ⟨hlimit, hset, -⟩ := Envelope.decrementHopLimit_ok hdecrement
  have hfits := e.fits
  rw [envelopeHeaderSize] at hfits
  have hlength : e'.bytes.length = e.bytes.length := by rw [hset, List.length_set]
  -- Behind the hop limit nothing changes.
  have hslice : ∀ a b, 1 < a → b ≤ e.bytes.length →
      slice (e'.bytes ++ rest) a b = slice e.bytes a b := by
    intro a b ha hb
    rw [slice_append_left (hb.trans hlength.ge), slice, hset, List.drop_set_of_lt ha, slice]
  have hlen : ofLe (slice (e'.bytes ++ rest) 2 4) = e.innerLen := by
    rw [hslice 2 4 (by omega) (by omega), hbytes, hinner]
  have hget : ∀ i, i < e.bytes.length → (e'.bytes ++ rest).getD i 0 = e'.bytes.getD i 0 :=
    fun i hi => List.getD_append _ _ _ _ (hlength ▸ hi)
  have hhop : (e'.bytes ++ rest).getD 1 0 = e.hopLimit - 1 := by
    rw [hget 1 (by omega), hset, List.getD_eq_getElem?_getD, List.getElem?_set_self (by omega),
      Option.getD_some]
  have hfirst : (e'.bytes ++ rest).getD 0 0 = envelopeVersion := by
    rw [hget 0 (by omega), hset, List.getD_eq_getElem?_getD, List.getElem?_set_ne (by omega),
      ← List.getD_eq_getElem?_getD, hbytes, hversion]
  have hpositive : e.hopLimit - 1 ≠ 0 := by
    intro hzero
    have hone : e.hopLimit = 1 := by
      rw [← UInt8.sub_add_cancel e.hopLimit 1, hzero]
      rfl
    rw [hone] at hlimit
    exact absurd hlimit (by decide)
  have hroom : envelopeHeaderSize + ofLe (slice (e'.bytes ++ rest) 2 4) ≤
      (e'.bytes ++ rest).length := by
    rw [hlen, List.length_append, hlength, envelopeHeaderSize]
    omega
  refine ⟨_, Envelope.parse_eq hfirst (hhop ▸ hpositive) hroom, ?_, ?_, hhop⟩
  · have hread := hslice 4 envelopeHeaderSize (by omega) (by rw [envelopeHeaderSize]; omega)
    exact Envelope.destination_congr hread
  · rw [Envelope.innerPacket]
    dsimp only
    rw [hlen]
    exact hslice _ _ (by rw [envelopeHeaderSize]; omega) (by rw [envelopeHeaderSize]; omega)

theorem validateInnerPacket_iff {inner : Bytes} :
    validateInnerPacket inner = .ok () ↔
      ∃ packet, parseIncomingPacket inner = .ok packet ∧ ∀ p, packet ≠ .relayData p := by
  rw [validateInnerPacket, parseIncomingPacket]
  by_cases hshort : inner.length < 4
  · rw [if_pos hshort, if_pos hshort]
    constructor
    · intro h
      cases h
    · rintro ⟨packet, h, -⟩
      cases h
  rw [if_neg hshort, if_neg hshort]
  dsimp only
  by_cases hinit : ofLe (slice inner 0 4) = MessageType.handshakeInit ∧
      inner.length = handshakeInitSz
  · rw [if_pos (.inl hinit), if_pos hinit]
    exact ⟨fun _ => ⟨_, rfl, fun _ h => by cases h⟩, fun _ => rfl⟩
  by_cases hresp : ofLe (slice inner 0 4) = MessageType.handshakeResp ∧
      inner.length = handshakeRespSz
  · rw [if_pos (.inr (.inl hresp)), if_neg hinit, if_pos hresp]
    exact ⟨fun _ => ⟨_, rfl, fun _ h => by cases h⟩, fun _ => rfl⟩
  by_cases hcookie : ofLe (slice inner 0 4) = MessageType.cookieReply ∧
      inner.length = cookieReplySz
  · rw [if_pos (.inr (.inr (.inl hcookie))), if_neg hinit, if_neg hresp, if_pos hcookie]
    exact ⟨fun _ => ⟨_, rfl, fun _ h => by cases h⟩, fun _ => rfl⟩
  by_cases hdata : ofLe (slice inner 0 4) = MessageType.data ∧ dataOverheadSz ≤ inner.length
  · rw [if_pos (.inr (.inr (.inr hdata))), if_neg hinit, if_neg hresp, if_neg hcookie,
      if_pos hdata]
    exact ⟨fun _ => ⟨_, rfl, fun _ h => by cases h⟩, fun _ => rfl⟩
  have hnone := not_or.mpr ⟨hinit, not_or.mpr ⟨hresp, not_or.mpr ⟨hcookie, hdata⟩⟩⟩
  rw [if_neg hnone, if_neg hinit, if_neg hresp, if_neg hcookie, if_neg hdata]
  constructor
  · intro h
    split at h <;> cases h
  · rintro ⟨packet, h, hother⟩
    split at h
    · cases h
      exact absurd rfl (hother _)
    · cases h

theorem buildEnvelope_eq (hshort : packet.length ≤ 65535)
    (hroom : envelopeHeaderSize + packet.length ≤ dstLen) :
    buildEnvelope dstLen destination packet = .ok (envelopeVersion :: defaultHopLimit ::
      (toLe 2 packet.length ++ (destination.bytes ++ packet))) := by
  rw [buildEnvelope, if_neg (Nat.not_lt.mpr hshort), if_neg (Nat.not_lt.mpr hroom)]

/-- Admission and the parser agree on every packet, and an envelope is read as it was built. -/
theorem admission_matches_parsing :
    (∀ inner, validateInnerPacket inner = .ok () ↔
      ∃ packet, parseIncomingPacket inner = .ok packet ∧ ∀ p, packet ≠ .relayData p) ∧
    (∀ destination packet dstLen rest, packet.length ≤ 65535 →
      envelopeHeaderSize + packet.length ≤ dstLen →
      ∃ bytes e, buildEnvelope dstLen destination packet = .ok bytes ∧
        Envelope.parse (bytes ++ rest) = .ok e ∧ e.destination = destination ∧
        e.innerPacket = packet) ∧
    ∀ bytes, bytes.length < envelopeHeaderSize + ofLe (slice bytes 2 4) →
      ∀ e, Envelope.parse bytes ≠ .ok e := by
  refine ⟨fun _ => validateInnerPacket_iff, ?_, ?_⟩
  · intro destination packet dstLen rest hshort hroom
    have hbuild : buildEnvelope dstLen destination packet = _ := buildEnvelope_eq hshort hroom
    obtain ⟨e, hparse, hreads⟩ := parse_buildEnvelope hbuild rest
    exact ⟨_, e, hbuild, hparse, hreads.destination_eq, hreads.innerPacket_eq⟩
  · intro bytes hlong e hparse
    obtain ⟨hbytes, hinner, -⟩ := Envelope.parse_ok hparse
    have hfits := e.fits
    rw [hbytes, hinner] at hfits
    exact absurd hlong (Nat.not_lt.mpr hfits)

end Tendrilix.Noise.Relay
