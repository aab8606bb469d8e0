import Tendrilix.IpNet

/-!
# The path-compressed trie of one address family

Nodes live in an arena and refer to each other by stored indices. The arena is a list; `capacity`
is `none` in builds with `alloc` and the node capacity `N` in builds without it. An insertion is a
loop over `insertStep`, which either moves to a child or finishes.
-/

namespace Tendrilix.AllowedIps

open PrefixWord

inductive AllowedIPsError
  | invalidCidr
  | full
  deriving DecidableEq, Repr

/-- The `NonZeroU16` that stores an arena index shifted by one. -/
structure NodeIndex where
  stored : ℕ
  ne_zero : stored ≠ 0
  lt : stored < 2 ^ 16
  deriving DecidableEq

def encodeNodeIndex (index : ℕ) : Except AllowedIPsError NodeIndex :=
  if h : index + 1 < 2 ^ 16 then .ok ⟨index + 1, by omega, h⟩ else .error .full

def decodeNodeIndex (index : NodeIndex) : ℕ := index.stored - 1

theorem decode_of_encode {index : ℕ} {stored : NodeIndex}
    (h : encodeNodeIndex index = .ok stored) : decodeNodeIndex stored = index := by
  unfold encodeNodeIndex at h
  split_ifs at h
  cases h
  rfl

variable {w : ℕ} {D : Type}

/-- The part of a node that `remove` leaves alone: its prefix and its links. -/
structure Skeleton (w : ℕ) where
  pfx : BitVec w
  prefixLen : ℕ
  child : Bool → Option NodeIndex

structure Node (w : ℕ) (D : Type) extends Skeleton w where
  data : Option D

def Node.new (pfx : BitVec w) (prefixLen : ℕ) : Node w D :=
  { pfx, prefixLen, child := fun _ => none, data := none }

def Node.leaf (pfx : BitVec w) (prefixLen : ℕ) (data : D) : Node w D :=
  { pfx, prefixLen, child := fun _ => none, data := some data }

def Skeleton.setChild (n : Skeleton w) (branch : Bool) (index : NodeIndex) : Skeleton w :=
  { n with child := Function.update n.child branch (some index) }

def Node.setChild (n : Node w D) (branch : Bool) (index : NodeIndex) : Node w D :=
  { n with toSkeleton := n.toSkeleton.setChild branch index }

structure Trie (w : ℕ) (D : Type) where
  nodes : List (Node w D)

namespace Trie

def new : Trie w D := ⟨[Node.new 0#w 0]⟩

def clear (_ : Trie w D) : Trie w D := ⟨[Node.new 0#w 0]⟩

end Trie

def commonPrefixLen (a : BitVec w) (aLen : ℕ) (b : BitVec w) (bLen : ℕ) : ℕ :=
  let max := min aLen bLen
  ((List.range max).find? (fun i => bitAt a i != bitAt b i)).getD max

def prefixesOverlap (a : BitVec w) (aLen : ℕ) (b : BitVec w) (bLen : ℕ) : Bool :=
  commonPrefixLen a aLen b bLen == min aLen bLen

/-- `Vec::push` with `alloc`, `heapless::Vec::push` without it. -/
def push (capacity : Option ℕ) (nodes : List (Node w D)) (n : Node w D) :
    Except AllowedIPsError (List (Node w D)) :=
  match capacity with
  | none => .ok (nodes ++ [n])
  | some N => if nodes.length < N then .ok (nodes ++ [n]) else .error .full

def nodeAt (nodes : List (Node w D)) (index : ℕ) : Call (Node w D) :=
  match nodes[index]? with
  | some n => .ok n
  | none => .error .indexOutOfBounds

/-- What one turn of the insertion loop does: go on at a child, or return. -/
inductive InsertTurn (w : ℕ) (D : Type)
  | descend (nodeIdx : ℕ)
  | overwrite (nodes : List (Node w D)) (old : Option D)
  | added (nodes : List (Node w D))
  | full

/-- The branch without a child: hang a new leaf below the node. -/
def hangLeaf (capacity : Option ℕ) (nodes : List (Node w D)) (nodeIdx : ℕ) (n : Node w D)
    (branch : Bool) (leaf : Node w D) : Except AllowedIPsError (List (Node w D)) := do
  let newIdx ← encodeNodeIndex nodes.length
  let pushed ← push capacity nodes leaf
  .ok (pushed.set nodeIdx (n.setChild branch newIdx))

/-- The branch whose child diverges from the new prefix after `common` bits. -/
def splitChild (capacity : Option ℕ) (nodes : List (Node w D)) (nodeIdx : ℕ) (n : Node w D)
    (branch : Bool) (childIdx : ℕ) (c : Node w D) (common : ℕ) (pfx : BitVec w)
    (prefixLen : ℕ) (data : D) : Except AllowedIPsError (List (Node w D)) :=
  let needed := if common = prefixLen then 1 else 2
  let intermediateIdx := nodes.length
  let oldBranch := bitAt c.pfx common
  if capacity.any (fun N => decide (N < nodes.length + needed)) then .error .full
  else do
    let encodedIntermediateIdx ← encodeNodeIndex intermediateIdx
    let encodedChildIdx ← encodeNodeIndex childIdx
    let intermediate := (Node.new (mask pfx common) common).setChild oldBranch encodedChildIdx
    if common = prefixLen then
      let pushed ← push capacity nodes { intermediate with data := some data }
      .ok (pushed.set nodeIdx (n.setChild branch encodedIntermediateIdx))
    else
      let newBranch := bitAt pfx common
      let newLeafIdx ← encodeNodeIndex (intermediateIdx + 1)
      let pushed ← push capacity nodes (intermediate.setChild newBranch newLeafIdx)
      let pushed ← push capacity pushed (Node.leaf pfx prefixLen data)
      .ok (pushed.set nodeIdx (n.setChild branch encodedIntermediateIdx))

def InsertTurn.ofResult : Except AllowedIPsError (List (Node w D)) → InsertTurn w D
  | .ok nodes => .added nodes
  | .error _ => .full

def insertStep (capacity : Option ℕ) (nodes : List (Node w D)) (pfx : BitVec w) (prefixLen : ℕ)
    (data : D) (nodeIdx : ℕ) : Call (InsertTurn w D) := do
  let n ← nodeAt nodes nodeIdx
  if n.prefixLen = prefixLen then
    return .overwrite (nodes.set nodeIdx { n with pfx := pfx, data := some data }) n.data
  let branch := bitAt pfx n.prefixLen
  match (n.child branch).map decodeNodeIndex with
  | none =>
    return .ofResult (hangLeaf capacity nodes nodeIdx n branch
      (Node.leaf pfx prefixLen data))
  | some childIdx =>
    let c ← nodeAt nodes childIdx
    let common := commonPrefixLen pfx prefixLen c.pfx c.prefixLen
    if common = c.prefixLen then return .descend childIdx
    return .ofResult (splitChild capacity nodes nodeIdx n branch childIdx c common pfx prefixLen data)

def insertLoop (capacity : Option ℕ) (nodes : List (Node w D)) (pfx : BitVec w) (prefixLen : ℕ)
    (data : D) : ℕ → ℕ → Call (Except AllowedIPsError (Option D) × Trie w D)
  | 0, _ => .error .diverged
  | fuel + 1, nodeIdx => do
    match ← insertStep capacity nodes pfx prefixLen data nodeIdx with
    | .descend childIdx => insertLoop capacity nodes pfx prefixLen data fuel childIdx
    | .overwrite nodes' old => return (.ok old, ⟨nodes'⟩)
    | .added nodes' => return (.ok none, ⟨nodes'⟩)
    | .full => return (.error .full, ⟨nodes⟩)

/-- A stored length never exceeds `w`, so `w + 1` turns are enough. -/
def Trie.insert (capacity : Option ℕ) (t : Trie w D) (pfx : BitVec w) (prefixLen : ℕ) (data : D) :
    Call (Except AllowedIPsError (Option D) × Trie w D) :=
  insertLoop capacity t.nodes (mask pfx prefixLen) prefixLen data (w + 1) 0

def findLoop (nodes : List (Node w D)) (key : BitVec w) : ℕ → ℕ → Option D → Call (Option D)
  | 0, _, _ => .error .diverged
  | fuel + 1, nodeIdx, best => do
    let n ← nodeAt nodes nodeIdx
    if n.prefixLen = w then return best
    match (n.child (bitAt key n.prefixLen)).map decodeNodeIndex with
    | none => return best
    | some childIdx =>
      let c ← nodeAt nodes childIdx
      if mask key c.prefixLen ≠ c.pfx then return best
      findLoop nodes key fuel childIdx (c.data.or best)

def Trie.find (t : Trie w D) (key : BitVec w) : Call (Option D) := do
  let root ← nodeAt t.nodes 0
  findLoop t.nodes key (w + 1) 0 root.data

def Node.removeData (p : D → Bool) (n : Node w D) : Node w D :=
  match n.data with
  | some d => if p d then { n with data := none } else n
  | none => n

def Trie.remove (t : Trie w D) (p : D → Bool) : Trie w D := ⟨t.nodes.map (Node.removeData p)⟩

def Node.entry (n : Node w D) : Option (D × BitVec w × ℕ) :=
  n.data.map fun d => (d, n.pfx, n.prefixLen)

def Trie.iter (t : Trie w D) : List (D × BitVec w × ℕ) := t.nodes.filterMap Node.entry

def Trie.overlaps (t : Trie w D) (pfx : BitVec w) (prefixLen : ℕ) : Bool :=
  t.iter.any fun (_, existing, existingLen) =>
    prefixesOverlap (mask pfx prefixLen) prefixLen existing existingLen

end Tendrilix.AllowedIps
