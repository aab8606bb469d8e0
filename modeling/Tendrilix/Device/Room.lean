import Tendrilix.Device.Model
import Tendrilix.Noise.Room

/-!
# Commands need no room

The routing tables, the index generator and the handlers of commands write to no buffer.
-/

namespace Tendrilix

open AllowedIps Noise

variable {K : Crypto} {N BYTES : ℕ}

namespace AllowedIps

variable {w : ℕ} {D : Type}

theorem nodeAt_roomy (nodes : List (Node w D)) (index : ℕ) : Roomy (nodeAt nodes index) := by
  rw [nodeAt]
  split
  · exact .ok _
  · exact .error (by decide)

theorem insertStep_roomy (capacity : Option ℕ) (nodes : List (Node w D)) (pfx : BitVec w)
    (prefixLen : ℕ) (data : D) (nodeIdx : ℕ) :
    Roomy (insertStep capacity nodes pfx prefixLen data nodeIdx) := by
  refine .bind (nodeAt_roomy _ _) fun n _ => ?_
  dsimp only
  split
  · exact .ok _
  split
  · exact .ok _
  · refine .bind (nodeAt_roomy _ _) fun c _ => ?_
    split
    · exact .ok _
    · exact .ok _

theorem insertLoop_roomy (capacity : Option ℕ) (nodes : List (Node w D)) (pfx : BitVec w)
    (prefixLen : ℕ) (data : D) (fuel nodeIdx : ℕ) :
    Roomy (insertLoop capacity nodes pfx prefixLen data fuel nodeIdx) := by
  induction fuel generalizing nodeIdx with
  | zero => exact .error nofun
  | succ fuel ih =>
    refine .bind (insertStep_roomy _ _ _ _ _ _) fun turn _ => ?_
    cases turn with
    | descend childIdx => exact ih childIdx
    | overwrite nodes' old => exact .ok _
    | added nodes' => exact .ok _
    | full => exact .ok _

theorem findLoop_roomy (nodes : List (Node w D)) (key : BitVec w) (fuel nodeIdx : ℕ)
    (best : Option D) : Roomy (findLoop nodes key fuel nodeIdx best) := by
  induction fuel generalizing nodeIdx best with
  | zero => exact .error nofun
  | succ fuel ih =>
    refine .bind (nodeAt_roomy _ _) fun n _ => ?_
    split
    · exact .ok _
    split
    · exact .ok _
    · refine .bind (nodeAt_roomy _ _) fun c _ => ?_
      split
      · exact .ok _
      · exact ih _ _

theorem Trie.find_roomy (t : Trie w D) (key : BitVec w) : Roomy (t.find key) :=
  .bind (nodeAt_roomy _ _) fun _ _ => findLoop_roomy _ _ _ _ _

end AllowedIps

namespace AllowedIPs

variable {D : Type}

theorem insert_roomy (capacity : Option ℕ) (t : AllowedIPs D) (net : IpNet) (d : D) :
    Roomy (t.insert capacity net d) := by
  rw [insert]
  dsimp only
  split
  · exact .bind (insertLoop_roomy _ _ _ _ _ _ _) fun _ _ => .ok _
  · exact .bind (insertLoop_roomy _ _ _ _ _ _ _) fun _ _ => .ok _

theorem find_roomy (t : AllowedIPs D) (key : IpAddr) : Roomy (t.find key) := by
  cases key with
  | v4 addr => exact t.v4.find_roomy addr
  | v6 addr => exact t.v6.find_roomy addr

theorem iter_roomy (t : AllowedIPs D) : Roomy t.iter := by
  have hunwrap : ∀ (d : D) (net : Option IpNet), Roomy (unwrapNet d net) := by
    intro d net
    cases net with
    | none => exact .error nofun
    | some net => exact .ok _
  refine .bind (.mapM fun _ _ => hunwrap _ _) fun _ _ => ?_
  exact .bind (.mapM fun _ _ => hunwrap _ _) fun _ _ => .ok _

theorem tryFromLoop_roomy (capacity : Option ℕ) (items : List (IpNet × D)) (t : AllowedIPs D) :
    Roomy (tryFromLoop capacity items t) := by
  induction items generalizing t with
  | nil => exact .ok _
  | cons item items ih =>
    refine .bind (t.insert_roomy _ _ _) fun (r, t) _ => ?_
    cases r with
    | error e => exact .ok _
    | ok old => exact ih t

end AllowedIPs

theorem Peer.allowedIpsFromSlice_roomy (profile : Profile) (allowedIps : List IpNet) :
    Roomy (Peer.allowedIpsFromSlice profile allowedIps) := by
  refine .bind (AllowedIPs.tryFromLoop_roomy _ _ _) fun r _ => ?_
  cases r with
  | error e => exact .ok _
  | ok table => exact .ok _

theorem Peer.isAllowedIp_roomy (p : Peer K) (addr : IpAddr) : Roomy (p.isAllowedIp addr) :=
  .bind (p.allowedIps.find_roomy addr) fun _ _ => .ok _

namespace PeerState

theorem routePeer_roomy (profile : Profile) (publicKey : PublicKey) (allowedIps : List IpNet)
    (peersByIp : AllowedIPs PublicKey) : Roomy (routePeer profile publicKey allowedIps peersByIp) := by
  induction allowedIps generalizing peersByIp with
  | nil => exact .ok _
  | cons allowedIp allowedIps ih =>
    rw [routePeer]
    split
    · exact .ok _
    · exact .ok _
    · refine .bind (peersByIp.insert_roomy _ _ _) fun (r, peersByIp) _ => ?_
      cases r with
      | error e => exact .ok _
      | ok old => exact ih peersByIp

theorem routePeers_roomy (profile : Profile) (routes : List (PublicKey × AllowedIPs Unit))
    (peersByIp : AllowedIPs PublicKey) : Roomy (routePeers profile routes peersByIp) := by
  induction routes generalizing peersByIp with
  | nil => exact .ok _
  | cons route routes ih =>
    refine .bind route.2.iter_roomy fun items _ => ?_
    refine .bind (routePeer_roomy _ _ _ _) fun r _ => ?_
    cases r with
    | error e => exact .ok _
    | ok peersByIp => exact ih peersByIp

end PeerState

namespace Device

theorem addPeerToState_roomy (profile : Profile) (peers : PeerState K) (config : PeerConfig)
    (privateKey : K.Secret) (g : IndexGenerator) (stamper : TimeStamper) (w : World K N BYTES) :
    Roomy (addPeerToState profile peers config privateKey g stamper w) := by
  have hindex : Roomy g.newIndex := by
    rw [IndexGenerator.newIndex]
    split
    · exact .error (by decide)
    split
    · exact .error (by decide)
    · exact .ok _
  rw [addPeerToState]
  split
  · exact .ok _
  refine .bind hindex fun _ _ => ?_
  refine .bind (.bind (Peer.allowedIpsFromSlice_roomy _ _) fun r _ => ?_) fun r _ => ?_
  · cases r with
    | error e => exact .ok _
    | ok allowedIps => exact .ok _
  · cases r with
    | error e => exact .ok _
    | ok peer =>
      refine .bind (PeerState.routePeers_roomy _ _ _) fun r _ => ?_
      cases r with
      | error e => exact .ok _
      | ok peersByIp =>
        dsimp only
        split
        · exact .ok _
        · exact .ok _

theorem updatePeerInState_roomy (profile : Profile) (peers : PeerState K) (config : PeerConfig) :
    Roomy (updatePeerInState profile peers config) := by
  rw [updatePeerInState]
  split
  · exact .ok _
  refine .bind (Peer.allowedIpsFromSlice_roomy _ _) fun r _ => ?_
  cases r with
  | error e => exact .ok _
  | ok allowedIps =>
    refine .bind (PeerState.routePeers_roomy _ _ _) fun r _ => ?_
    cases r with
    | error e => exact .ok _
    | ok peersByIp => exact .ok _

variable (d : Device K N BYTES)

theorem handlePeerUpdate_roomy (c : Command) : Roomy (d.handlePeerUpdate c) := by
  cases c with
  | none | list | remove key => exact .ok _
  | add config => exact .bind (addPeerToState_roomy _ _ _ _ _ _ _) fun _ _ => .ok _
  | update config => exact .bind (updatePeerInState_roomy _ _ _) fun _ _ => .ok _
  | get key =>
    rw [handlePeerUpdate]
    split
    · exact .ok _
    · refine .bind (.bind ?_ fun _ _ => .ok _) fun _ _ => .ok _
      rw [Tunn.timeSinceLastHandshake]
      split
      · dsimp only
        split
        · exact .error nofun
        · exact .ok _
      · exact .ok _

theorem peerKeyOf_roomy (packet : Packet) : Roomy (d.peerKeyOf packet) := by
  cases packet with
  | handshakeInit p =>
    refine .bind (parseHandshakeAnon_avoids Fault.measured_room _ _ _) fun opened _ => ?_
    cases opened with
    | error e => exact .ok _
    | ok peerStaticPublic => exact .ok _
  | _ => exact .ok _

end Device

end Tendrilix
