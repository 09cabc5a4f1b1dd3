import Mathlib.Data.Finset.Basic
import CmxRdma.Lib.SortedMap
import CmxRdma.Lib.Text
import CmxRdma.Lib.Transition
import CmxRdma.Platform

/-!
Contract: `cmx-agent/src/placement.rs`, the consistent hashing ring.

Owns: the ring with its virtual nodes, `add_node` and `remove_node`, the
preferred node and the preferred nodes of a prefix hash, and the result that
placement depends on the set of nodes alone.

Does not own: who adds and removes nodes; see `Membership`.
-/

namespace CmxRdma.Agent

open CmxRdma.Lib
open CmxRdma.Lib.Text
open CmxRdma.Lib.Transition

/-! ## Model -/

/-- The key hashed for a virtual node. -/
def vnodeKey (nodeId : String) (number : Nat) : String := nodeId ++ ":" ++ toString number

/-- `hash_position`: the first eight bytes of the digest, the highest first. -/
def hashPosition (platform : Platform) (key : String) : Nat :=
  ((platform.sha256 (utf8 key)).toList.take 8).foldl (fun value byte => value * 256 + byte.toNat) 0

structure HashRing where
  ring : SortedMap Nat String
  vnodesPerNode : UInt32
  nodes : List String

namespace HashRing

def new (vnodesPerNode : UInt32) : HashRing where
  ring := SortedMap.empty
  vnodesPerNode := vnodesPerNode
  nodes := []

/-- The loop of `add_node`: one entry for each virtual node. -/
def insertVnodes (platform : Platform) (nodeId : String) (numbers : List Nat)
    (ring : SortedMap Nat String) : SortedMap Nat String :=
  numbers.foldl
    (fun ring number => ring.insert (hashPosition platform (vnodeKey nodeId number)) nodeId) ring

def addNode (platform : Platform) (hashRing : HashRing) (nodeId : String) : HashRing :=
  if nodeId ∈ hashRing.nodes then hashRing
  else
    { hashRing with
      ring := insertVnodes platform nodeId (List.range hashRing.vnodesPerNode.toNat) hashRing.ring
      nodes := hashRing.nodes ++ [nodeId] }

def removeNode (hashRing : HashRing) (nodeId : String) : HashRing :=
  { hashRing with
    ring := hashRing.ring.retain fun owner => owner ≠ nodeId
    nodes := hashRing.nodes.filter fun other => other ≠ nodeId }

/-- The position of a prefix hash. -/
def position (platform : Platform) (prefixHash : PrefixHash) : Nat :=
  hashPosition platform (String.ofList (hexEncode prefixHash.toBytes))

/-- The first owner at or after the position, wrapping around. -/
def preferredNode (platform : Platform) (hashRing : HashRing) (prefixHash : PrefixHash) :
    Option String :=
  if hashRing.ring.entries.isEmpty then none
  else
    ((hashRing.ring.range (position platform prefixHash)).head?.or
      hashRing.ring.entries.head?).map Prod.snd

/-- The walk of `preferred_nodes`: owners not met before, until there are `count`.
The set `seen` of the source has the members of `result`. -/
def collectOwners (count : Nat) : List (Nat × String) → List String → List String
  | [], result => result
  | (_, nodeId) :: rest, result =>
      if nodeId ∈ result then collectOwners count rest result
      else if count ≤ (result ++ [nodeId]).length then result ++ [nodeId]
      else collectOwners count rest (result ++ [nodeId])

def preferredNodes (platform : Platform) (hashRing : HashRing) (prefixHash : PrefixHash)
    (count : Nat) : List String :=
  if hashRing.ring.entries.isEmpty then []
  else
    collectOwners count
      (hashRing.ring.range (position platform prefixHash) ++ hashRing.ring.entries) []

end HashRing

/-! ## Virtual node keys -/

theorem toList_vnodeKey (nodeId : String) (number : Nat) :
    (vnodeKey nodeId number).toList = nodeId.toList ++ ':' :: Nat.toDigits 10 number := by
  simp [vnodeKey]

theorem colon_notMem_toDigits (number : Nat) : ':' ∉ Nat.toDigits 10 number := by
  intro member
  have digit := Nat.isDigit_of_mem_toDigits (by decide) (by decide) member
  exact absurd digit (by decide)

/-- What stands after the last colon is the number, whatever the node id. -/
theorem append_colon_inj {left right : List Char} {leftDigits rightDigits : List Char}
    (leftPlain : ':' ∉ leftDigits) (rightPlain : ':' ∉ rightDigits)
    (same : left ++ ':' :: leftDigits = right ++ ':' :: rightDigits) :
    left = right ∧ leftDigits = rightDigits := by
  induction left generalizing right with
  | nil =>
      cases right with
      | nil => exact ⟨rfl, (List.cons.inj same).2⟩
      | cons first rest =>
          have tail : leftDigits = rest ++ ':' :: rightDigits := (List.cons.inj same).2
          exact absurd (tail ▸ List.mem_append_right rest List.mem_cons_self) leftPlain
  | cons first rest inductionHypothesis =>
      cases right with
      | nil =>
          have tail : rest ++ ':' :: leftDigits = rightDigits := (List.cons.inj same).2
          exact absurd (tail ▸ List.mem_append_right rest List.mem_cons_self) rightPlain
      | cons other others =>
          obtain ⟨rfl, tail⟩ := List.cons.inj same
          obtain ⟨rfl, digits⟩ := inductionHypothesis tail
          exact ⟨rfl, digits⟩

theorem vnodeKey_inj {left right : String} {leftNumber rightNumber : Nat}
    (same : vnodeKey left leftNumber = vnodeKey right rightNumber) :
    left = right ∧ leftNumber = rightNumber := by
  have sameChars := congrArg String.toList same
  rw [toList_vnodeKey, toList_vnodeKey] at sameChars
  obtain ⟨sameNode, sameDigits⟩ := append_colon_inj (colon_notMem_toDigits leftNumber)
    (colon_notMem_toDigits rightNumber) sameChars
  refine ⟨String.toList_inj.mp sameNode, ?_⟩
  have decoded := Nat.ofDigitChars_ten_toDigits (n := leftNumber)
  rw [sameDigits, Nat.ofDigitChars_ten_toDigits] at decoded
  exact decoded.symm

/-! ## Histories of a ring -/

inductive RingCall where
  | addNode (nodeId : String)
  | removeNode (nodeId : String)

/-- The set of nodes a history of calls leaves. -/
def liveNodes (live : Finset String) : RingCall → Finset String
  | .addNode nodeId => insert nodeId live
  | .removeNode nodeId => live.erase nodeId

/-- The nodes a history adds, the removed ones included. -/
def addedNodes (calls : List RingCall) : List String :=
  calls.filterMap fun
    | .addNode nodeId => some nodeId
    | .removeNode _ => none

/-- No two virtual node keys of the nodes share a position. -/
def PositionsApart (platform : Platform) (vnodesPerNode : UInt32) (nodes : List String) : Prop :=
  ∀ left ∈ nodes, ∀ leftNumber < vnodesPerNode.toNat,
    ∀ right ∈ nodes, ∀ rightNumber < vnodesPerNode.toNat,
      hashPosition platform (vnodeKey left leftNumber) =
          hashPosition platform (vnodeKey right rightNumber) →
        vnodeKey left leftNumber = vnodeKey right rightNumber

instance (platform : Platform) (vnodesPerNode : UInt32) (nodes : List String) :
    Decidable (PositionsApart platform vnodesPerNode nodes) :=
  inferInstanceAs (Decidable (∀ left ∈ nodes, ∀ leftNumber < vnodesPerNode.toNat,
    ∀ right ∈ nodes, ∀ rightNumber < vnodesPerNode.toNat, _ → _))

namespace HashRing

def apply (platform : Platform) (hashRing : HashRing) : RingCall → HashRing
  | .addNode nodeId => hashRing.addNode platform nodeId
  | .removeNode nodeId => hashRing.removeNode nodeId

/-- The ring is the map from the positions of the live nodes to their owners. -/
structure Covers (platform : Platform) (vnodesPerNode : UInt32) (hashRing : HashRing)
    (live : Finset String) : Prop where
  vnodesEq : hashRing.vnodesPerNode = vnodesPerNode
  nodesEq : ∀ nodeId, nodeId ∈ hashRing.nodes ↔ nodeId ∈ live
  entriesEq : ∀ entry, entry ∈ hashRing.ring ↔ entry.2 ∈ live ∧
    ∃ number < vnodesPerNode.toNat, hashPosition platform (vnodeKey entry.2 number) = entry.1

variable {platform : Platform} {vnodesPerNode : UInt32} {hashRing : HashRing}
  {live : Finset String} {known : List String}

theorem new_covers (platform : Platform) (vnodesPerNode : UInt32) :
    (new vnodesPerNode).Covers platform vnodesPerNode ∅ where
  vnodesEq := rfl
  nodesEq := by simp [new]
  entriesEq := by
    intro entry
    simp [new, SortedMap.notMem_empty]

/-- The inserted positions belong to the node, the others to their old owner. -/
theorem mem_insertVnodes {nodeId : String} {numbers : List Nat} {ring : SortedMap Nat String}
    {entry : Nat × String} :
    entry ∈ insertVnodes platform nodeId numbers ring ↔
      (entry.2 = nodeId ∧ ∃ number ∈ numbers,
        hashPosition platform (vnodeKey nodeId number) = entry.1) ∨
      (entry ∈ ring ∧ ∀ number ∈ numbers,
        hashPosition platform (vnodeKey nodeId number) ≠ entry.1) := by
  induction numbers generalizing ring with
  | nil => simp [insertVnodes]
  | cons number rest inductionHypothesis =>
      have unfolded : insertVnodes platform nodeId (number :: rest) ring =
          insertVnodes platform nodeId rest
            (ring.insert (hashPosition platform (vnodeKey nodeId number)) nodeId) := rfl
      have untouched : (∀ other ∈ rest,
          hashPosition platform (vnodeKey nodeId other) ≠ entry.1) ↔
            ¬ ∃ other ∈ rest, hashPosition platform (vnodeKey nodeId other) = entry.1 := by
        simp
      rw [unfolded, inductionHypothesis, SortedMap.mem_insert, Prod.ext_iff]
      simp only [List.mem_cons, exists_eq_or_imp, forall_eq_or_imp, untouched, ne_eq,
        eq_comm (a := entry.1)]
      by_cases later : ∃ other ∈ rest, hashPosition platform (vnodeKey nodeId other) = entry.1
      · simp only [later, not_true, and_false, and_true, or_false, or_true]
      · simp only [later, not_false_iff, and_false, and_true, false_or, or_false]
        rw [and_comm]

theorem Covers.addNode (covers : hashRing.Covers platform vnodesPerNode live)
    (apart : PositionsApart platform vnodesPerNode known)
    (liveKnown : ∀ other ∈ live, other ∈ known)
    {nodeId : String} (nodeKnown : nodeId ∈ known) :
    (hashRing.addNode platform nodeId).Covers platform vnodesPerNode (insert nodeId live) := by
  rw [HashRing.addNode]
  split_ifs with present
  · -- the early return: the node is live already
    rw [Finset.insert_eq_of_mem ((covers.nodesEq nodeId).mp present)]
    exact covers
  · refine ⟨covers.vnodesEq, ?_, ?_⟩
    · intro other
      simp [covers.nodesEq, or_comm]
    · intro entry
      simp only [mem_insertVnodes, covers.entriesEq, covers.vnodesEq, List.mem_range,
        Finset.mem_insert]
      constructor
      · rintro (⟨rfl, number, small, same⟩ | ⟨⟨isLive, located⟩, -⟩)
        · exact ⟨Or.inl rfl, number, small, same⟩
        · exact ⟨Or.inr isLive, located⟩
      · rintro ⟨rfl | isLive, number, small, same⟩
        · exact Or.inl ⟨rfl, number, small, same⟩
        · refine Or.inr ⟨⟨isLive, number, small, same⟩, ?_⟩
          -- a position of another node cannot be one of the new ones
          intro other otherSmall collides
          have sameKey := apart nodeId nodeKnown other otherSmall entry.2
            (liveKnown entry.2 isLive) number small (collides.trans same.symm)
          obtain ⟨sameNode, -⟩ := vnodeKey_inj sameKey
          exact present ((covers.nodesEq nodeId).mpr (sameNode ▸ isLive))

theorem Covers.removeNode (covers : hashRing.Covers platform vnodesPerNode live)
    (nodeId : String) :
    (hashRing.removeNode nodeId).Covers platform vnodesPerNode (live.erase nodeId) where
  vnodesEq := covers.vnodesEq
  nodesEq := by
    intro other
    simp [HashRing.removeNode, covers.nodesEq, and_comm]
  entriesEq := by
    intro entry
    simp only [HashRing.removeNode, SortedMap.mem_retain, covers.entriesEq, Finset.mem_erase,
      decide_eq_true_eq]
    tauto

/-- Every history leaves the ring of its live nodes. -/
theorem run_covers (platform : Platform) (vnodesPerNode : UInt32) {calls : List RingCall}
    {known : List String} (apart : PositionsApart platform vnodesPerNode known)
    (addedKnown : ∀ nodeId ∈ addedNodes calls, nodeId ∈ known) :
    (run (HashRing.apply platform) (new vnodesPerNode) calls).Covers platform vnodesPerNode
      (run liveNodes ∅ calls) := by
  have related := @run_related _ _ _ (HashRing.apply platform) liveNodes
    (fun hashRing live => hashRing.Covers platform vnodesPerNode live ∧
      ∀ other ∈ live, other ∈ known) calls ?_ (new vnodesPerNode) ∅
    ⟨new_covers platform vnodesPerNode, by simp⟩
  · exact related.1
  · rintro hashRing live call inHistory ⟨covers, liveKnown⟩
    cases call with
    | addNode nodeId =>
        have nodeKnown : nodeId ∈ known :=
          addedKnown nodeId (List.mem_filterMap.mpr ⟨_, inHistory, rfl⟩)
        refine ⟨covers.addNode apart liveKnown nodeKnown, ?_⟩
        intro other member
        rcases Finset.mem_insert.mp member with rfl | old
        · exact nodeKnown
        · exact liveKnown other old
    | removeNode nodeId =>
        refine ⟨covers.removeNode nodeId, ?_⟩
        intro other member
        exact liveKnown other (Finset.mem_of_mem_erase member)

/-- Two rings of the same nodes are the same map. -/
theorem Covers.ring_eq {other : HashRing} (covers : hashRing.Covers platform vnodesPerNode live)
    (otherCovers : other.Covers platform vnodesPerNode live) : hashRing.ring = other.ring := by
  apply SortedMap.ext_of_mem_iff
  intro entry
  rw [covers.entriesEq, otherCovers.entriesEq]

end HashRing

/-- Placement depends on the node set alone: two histories that leave the same
nodes leave the same map, from the positions of their virtual nodes to the
nodes, and prefer the same nodes for every prefix hash, as long as no two virtual
node keys of the nodes they ever added share a position. -/
theorem placement_depends_on_node_set (platform : Platform) (vnodesPerNode : UInt32)
    (first second : List RingCall)
    (apart : PositionsApart platform vnodesPerNode (addedNodes first ++ addedNodes second))
    (sameNodes : run liveNodes ∅ first = run liveNodes ∅ second) :
    let left := run (HashRing.apply platform) (HashRing.new vnodesPerNode) first
    let right := run (HashRing.apply platform) (HashRing.new vnodesPerNode) second
    left.ring = right.ring ∧
      (∀ position nodeId, (position, nodeId) ∈ left.ring ↔
        nodeId ∈ run liveNodes ∅ first ∧ ∃ number < vnodesPerNode.toNat,
          hashPosition platform (vnodeKey nodeId number) = position) ∧
      (∀ prefixHash, left.preferredNode platform prefixHash =
        right.preferredNode platform prefixHash) ∧
      ∀ prefixHash count, left.preferredNodes platform prefixHash count =
        right.preferredNodes platform prefixHash count := by
  intro left right
  have leftCovers : left.Covers platform vnodesPerNode (run liveNodes ∅ first) :=
    HashRing.run_covers platform vnodesPerNode apart
      fun nodeId added => List.mem_append_left _ added
  have rightCovers : right.Covers platform vnodesPerNode (run liveNodes ∅ first) := by
    rw [sameNodes]
    exact HashRing.run_covers platform vnodesPerNode apart
      fun nodeId added => List.mem_append_right _ added
  have sameRing := leftCovers.ring_eq rightCovers
  refine ⟨sameRing, fun position nodeId => leftCovers.entriesEq (position, nodeId), ?_, ?_⟩
  · intro prefixHash
    simp only [HashRing.preferredNode, sameRing]
  · intro prefixHash count
    simp only [HashRing.preferredNodes, sameRing]

/-- A node that joins and leaves, with an id that could pass for a virtual node of
the other, leaves no trace. -/
theorem placement_depends_on_node_set_after_departure :
    let first : List RingCall := [.addNode "a", .addNode "a:0", .removeNode "a:0", .addNode "a"]
    let second : List RingCall := [.addNode "a"]
    PositionsApart Platform.release 1 (addedNodes first ++ addedNodes second) ∧
      run liveNodes ∅ first = run liveNodes ∅ second ∧
      (run (HashRing.apply Platform.release) (HashRing.new 1) first).ring =
        (run (HashRing.apply Platform.release) (HashRing.new 1) second).ring := by
  intro first second
  have apart : PositionsApart Platform.release 1 (addedNodes first ++ addedNodes second) := by
    decide +kernel
  have sameNodes : run liveNodes ∅ first = run liveNodes ∅ second := by decide
  exact ⟨apart, sameNodes,
    (placement_depends_on_node_set Platform.release 1 first second apart sameNodes).1⟩

end CmxRdma.Agent
