import Mathlib.Data.Finset.Card
import Mathlib.Data.List.Infix
import Mathlib.Order.Lattice.Nat
import CmxRdma.Agent.Placement
import CmxRdma.Lib.Clockwise
import CmxRdma.Lib.LittleEndian

/-!
Contract: the order in which a hash ring prefers its nodes.

Owns: the preference list of a prefix hash, that both query functions read it,
its agreement with clockwise distance on the ring of `u64` positions, what
adding and removing a node does to it, and for which counts `preferred_nodes`
returns as many nodes as it was asked for.

Does not own: the digest behind a position; positions may collide.
-/

namespace CmxRdma.Agent

open CmxRdma.Lib
open CmxRdma.Lib.LittleEndian
open CmxRdma.Lib.Transition

/-! ## Positions -/

/-- The first eight digest bytes, lowest first. -/
theorem hashPosition_eq_leValue (platform : Platform) (key : String) :
    hashPosition platform key =
      leValue ((platform.sha256 (utf8 key)).toList.take 8).reverse := by
  have folded : ∀ bytes : List UInt8,
      bytes.foldl (fun value byte => value * 256 + byte.toNat) 0 = leValue bytes.reverse := by
    intro bytes
    induction bytes using List.reverseRecOn with
    | nil => rfl
    | append_singleton bytes byte inductionHypothesis =>
        rw [List.foldl_append, List.reverse_append, inductionHypothesis]
        simp only [List.foldl_cons, List.foldl_nil, List.reverse_singleton, List.singleton_append,
          leValue]
        omega
  exact folded _

theorem hashPosition_lt (platform : Platform) (key : String) :
    hashPosition platform key < 2 ^ 64 := by
  have bound := leValue_lt ((platform.sha256 (utf8 key)).toList.take 8).reverse
  rw [hashPosition_eq_leValue]
  simpa using bound

/-- Every assignment of `u64` positions is that of some digest: results for all
platforms are results for an arbitrary `hash_position`. -/
theorem exists_hashPosition_eq (positions : String → UInt64) :
    ∃ platform, ∀ key, hashPosition platform key = (positions key).toNat := by
  classical
  let digest (position : UInt64) : Vector UInt8 32 :=
    ⟨((leBytes 8 position.toNat).reverse ++ List.replicate 24 0).toArray, by simp⟩
  let sha256 (bytes : List UInt8) : Vector UInt8 32 :=
    if encodes : ∃ key, utf8 key = bytes then digest (positions encodes.choose)
    else Vector.replicate 32 0
  refine ⟨{ Platform.release with sha256 := sha256 }, ?_⟩
  intro key
  have encodes : ∃ other, utf8 other = utf8 key := ⟨key, rfl⟩
  have chosen : encodes.choose = key := utf8_injective encodes.choose_spec
  have digestEq : sha256 (utf8 key) = digest (positions key) := by
    simp only [sha256, dif_pos encodes, chosen]
  have front : (digest (positions key)).toList.take 8 =
      (leBytes 8 (positions key).toNat).reverse := by
    simp [digest]
  rw [hashPosition_eq_leValue]
  simp only [digestEq, front, List.reverse_reverse]
  exact leValue_leBytes_of_lt (positions key).toNat_lt

namespace HashRing

/-! ## The preference list -/

/-- The owners in the order the walk from a prefix hash meets them. -/
def preference (platform : Platform) (hashRing : HashRing) (prefixHash : PrefixHash) :
    List String :=
  ((hashRing.ring.clockwise (position platform prefixHash)).map Prod.snd).eraseDups

/-- The loop continues the first occurrences of the owners it has walked past. It
pushes before it compares, so a count of zero stops it no earlier than one. -/
theorem collectOwners_eq (count : Nat) (entries : List (Nat × String)) (walked : List String)
    (more : walked.eraseDups.length < max count 1) :
    collectOwners count entries walked.eraseDups =
      (walked ++ entries.map Prod.snd).eraseDups.take (max count 1) := by
  induction entries generalizing walked with
  | nil =>
      rw [collectOwners, List.map_nil, List.append_nil, List.take_of_length_le more.le]
  | cons entry rest inductionHypothesis =>
      obtain ⟨key, nodeId⟩ := entry
      have onward : walked ++ ((key, nodeId) :: rest).map Prod.snd =
          (walked ++ [nodeId]) ++ rest.map Prod.snd := by simp
      have extended := eraseDups_concat walked nodeId
      rw [collectOwners, onward]
      by_cases seen : nodeId ∈ walked
      · rw [if_pos seen, List.append_nil] at extended
        rw [if_pos (List.mem_eraseDups.mpr seen), ← extended]
        exact inductionHypothesis _ (extended ▸ more)
      · rw [if_neg seen] at extended
        rw [if_neg (mt List.mem_eraseDups.mp seen), ← extended]
        by_cases enough : count ≤ (walked ++ [nodeId]).eraseDups.length
        · have full : (walked ++ [nodeId]).eraseDups.length = max count 1 := by
            rw [extended, List.length_append, List.length_singleton] at enough ⊢
            omega
          rw [if_pos enough, @List.eraseDups_append _ _ _ (walked ++ [nodeId]),
            List.take_left' full]
        · rw [if_neg enough]
          exact inductionHypothesis _ (by omega)

variable {platform : Platform} {hashRing : HashRing} {prefixHash : PrefixHash}

theorem preference_of_empty (empty : hashRing.ring.entries = []) :
    hashRing.preference platform prefixHash = [] := by
  simp [preference, SortedMap.clockwise, SortedMap.range, empty]

/-- `preferred_nodes` cuts the preference list, but never to nothing. -/
theorem preferredNodes_eq (platform : Platform) (hashRing : HashRing) (prefixHash : PrefixHash)
    (count : Nat) :
    hashRing.preferredNodes platform prefixHash count =
      (hashRing.preference platform prefixHash).take (max count 1) := by
  unfold preferredNodes
  split_ifs with empty
  · rw [preference_of_empty (List.isEmpty_iff.mp empty), List.take_nil]
  · rw [preference, ← SortedMap.eraseDups_walk]
    exact collectOwners_eq count _ [] (by simp)

/-- `preferred_node` is the head of the clockwise order. -/
theorem preferredNode_eq (platform : Platform) (hashRing : HashRing) (prefixHash : PrefixHash) :
    hashRing.preferredNode platform prefixHash =
      (hashRing.ring.clockwise (position platform prefixHash)).head?.map Prod.snd := by
  rw [SortedMap.head?_clockwise, preferredNode]
  split_ifs with empty
  · simp [SortedMap.range, List.isEmpty_iff.mp empty]
  · rfl

theorem head?_preference (platform : Platform) (hashRing : HashRing) (prefixHash : PrefixHash) :
    (hashRing.preference platform prefixHash).head? =
      hashRing.preferredNode platform prefixHash := by
  rw [preferredNode_eq, preference]
  cases hashRing.ring.clockwise (position platform prefixHash) with
  | nil => rfl
  | cons first rest => simp [List.eraseDups_cons]

theorem mem_preference {nodeId : String} :
    nodeId ∈ hashRing.preference platform prefixHash ↔ ∃ key, (key, nodeId) ∈ hashRing.ring := by
  simp [preference, SortedMap.mem_clockwise]

theorem nodup_preference (platform : Platform) (hashRing : HashRing) (prefixHash : PrefixHash) :
    (hashRing.preference platform prefixHash).Nodup := nodup_eraseDups _

/-- The nodes that own a position. -/
def owners (hashRing : HashRing) : Finset String :=
  (hashRing.ring.entries.map Prod.snd).toFinset

theorem mem_owners {nodeId : String} :
    nodeId ∈ hashRing.owners ↔ ∃ key, (key, nodeId) ∈ hashRing.ring := by
  simp only [owners, List.mem_toFinset, List.mem_map, Prod.exists, exists_eq_right]
  rfl

theorem length_preference (platform : Platform) (hashRing : HashRing) (prefixHash : PrefixHash) :
    (hashRing.preference platform prefixHash).length = hashRing.owners.card := by
  rw [← List.toFinset_card_of_nodup (nodup_preference platform hashRing prefixHash)]
  congr 1
  ext nodeId
  rw [List.mem_toFinset, mem_preference, mem_owners]

/-- A count of one node for each position gives the whole list. -/
theorem preferredNodes_length_entries (platform : Platform) (hashRing : HashRing)
    (prefixHash : PrefixHash) :
    hashRing.preferredNodes platform prefixHash hashRing.ring.entries.length =
      hashRing.preference platform prefixHash := by
  have owned : hashRing.owners.card ≤ hashRing.ring.entries.length := by
    have distinct := List.toFinset_card_le (hashRing.ring.entries.map Prod.snd)
    rwa [List.length_map] at distinct
  rw [preferredNodes_eq, List.take_of_length_le]
  rw [length_preference]
  omega

/-! ## Adding and removing a node -/

/-- Adding a node brings in its own positions only. -/
theorem mem_addNode {nodeId : String} {entry : Nat × String}
    (member : entry ∈ (hashRing.addNode platform nodeId).ring) :
    entry ∈ hashRing.ring ∨ entry.2 = nodeId ∧
      ∃ number, hashPosition platform (vnodeKey nodeId number) = entry.1 := by
  unfold addNode at member
  split_ifs at member with present
  · exact Or.inl member
  · rcases mem_insertVnodes.mp member with ⟨isNew, number, -, placed⟩ | ⟨old, -⟩
    · exact Or.inr ⟨isNew, number, placed⟩
    · exact Or.inl old

/-- A position stays on the ring when a node is added, perhaps with that node as
its owner. -/
theorem exists_mem_addNode (platform : Platform) (nodeId : String) {entry : Nat × String}
    (member : entry ∈ hashRing.ring) :
    ∃ owner, (entry.1, owner) ∈ (hashRing.addNode platform nodeId).ring := by
  unfold addNode
  split_ifs with present
  · exact ⟨entry.2, member⟩
  · by_cases taken : ∃ number ∈ List.range hashRing.vnodesPerNode.toNat,
        hashPosition platform (vnodeKey nodeId number) = entry.1
    · exact ⟨nodeId, mem_insertVnodes.mpr (Or.inl ⟨rfl, taken⟩)⟩
    · refine ⟨entry.2, mem_insertVnodes.mpr (Or.inr ⟨member, ?_⟩)⟩
      intro number inRange same
      exact taken ⟨number, inRange, same⟩

/-- The first owner after a node was added is the first one before, or the node. -/
theorem preferredNode_addNode (platform : Platform) (hashRing : HashRing) (nodeId : String)
    (prefixHash : PrefixHash) :
    (hashRing.addNode platform nodeId).preferredNode platform prefixHash =
        hashRing.preferredNode platform prefixHash ∨
      (hashRing.addNode platform nodeId).preferredNode platform prefixHash = some nodeId := by
  rw [preferredNode_eq, preferredNode_eq]
  cases after : ((hashRing.addNode platform nodeId).ring.clockwise
      (position platform prefixHash)).head? with
  | none =>
      -- an entry before would still name a position
      cases before : (hashRing.ring.clockwise (position platform prefixHash)).head? with
      | none => exact Or.inl rfl
      | some first =>
          have member := SortedMap.mem_clockwise.mp (List.mem_of_head? before)
          obtain ⟨owner, stays⟩ := exists_mem_addNode platform nodeId member
          obtain ⟨newFirst, isFirst, -⟩ :=
            SortedMap.exists_head?_clockwise stays (position platform prefixHash)
          rw [after] at isFirst
          cases isFirst
  | some first =>
      rcases mem_addNode (SortedMap.mem_clockwise.mp (List.mem_of_head? after)) with old | ⟨isNew, -⟩
      · -- an old owner in front: its position was in front before
        left
        obtain ⟨oldFirst, before, oldMember⟩ :=
          SortedMap.exists_head?_clockwise old (position platform prefixHash)
        obtain ⟨owner, stays⟩ := exists_mem_addNode platform nodeId oldMember
        have notAfter := SortedMap.not_before_head? after stays
        have sameKey := eq_of_not_clockwiseBefore (SortedMap.not_before_head? before old) notAfter
        rw [before, SortedMap.value_eq_of_mem old oldMember sameKey]
      · exact Or.inr (congrArg some isNew)

/-- Removing a node takes it out of every preference list. -/
theorem preference_removeNode (platform : Platform) (hashRing : HashRing) (nodeId : String)
    (prefixHash : PrefixHash) :
    (hashRing.removeNode nodeId).preference platform prefixHash =
      (hashRing.preference platform prefixHash).erase nodeId := by
  have mapped : ((hashRing.ring.clockwise (position platform prefixHash)).filter
        fun entry => decide (entry.2 ≠ nodeId)).map Prod.snd =
      ((hashRing.ring.clockwise (position platform prefixHash)).map Prod.snd).filter
        fun owner => decide (owner ≠ nodeId) := by
    rw [List.filter_map]
    rfl
  rw [preference, removeNode, SortedMap.clockwise_retain, mapped, eraseDups_filter,
    (nodup_preference platform hashRing prefixHash).erase_eq_filter, preference]
  apply List.filter_congr
  intro owner _
  rw [Bool.eq_iff_iff]
  simp

/-- The first of the preference list without a node: the old first if that was
another node, and otherwise the second. -/
theorem preferredNode_removeNode (platform : Platform) (hashRing : HashRing) (nodeId : String)
    (prefixHash : PrefixHash) :
    (hashRing.removeNode nodeId).preferredNode platform prefixHash =
      if hashRing.preferredNode platform prefixHash = some nodeId
      then (hashRing.preference platform prefixHash)[1]?
      else hashRing.preferredNode platform prefixHash := by
  rw [← head?_preference, ← head?_preference, preference_removeNode]
  cases hashRing.preference platform prefixHash with
  | nil => simp
  | cons first rest =>
      by_cases same : first = nodeId
      · simp [same, List.head?_eq_getElem?]
      · simp [same]

end HashRing

/-- Minimal movement. Adding a node moves a prefix hash to that node or not at
all. Removing a node erases it from the complete preference list and changes
nothing else, so that a prefix hash on another node stays and one on the removed
node goes to its second choice. -/
theorem minimal_key_movement (platform : Platform) (hashRing : HashRing) (nodeId : String)
    (prefixHash : PrefixHash) {count : Nat} (positive : 1 ≤ count) :
    let grown := hashRing.addNode platform nodeId
    let shrunk := hashRing.removeNode nodeId
    let complete :=
      hashRing.preferredNodes platform prefixHash hashRing.ring.entries.length
    (grown.preferredNode platform prefixHash = hashRing.preferredNode platform prefixHash ∨
        grown.preferredNode platform prefixHash = some nodeId) ∧
      (∀ entry ∈ hashRing.ring, entry.2 ∈ complete) ∧
      shrunk.preferredNodes platform prefixHash count = (complete.erase nodeId).take count ∧
      shrunk.preferredNode platform prefixHash =
        if hashRing.preferredNode platform prefixHash = some nodeId then complete[1]?
        else hashRing.preferredNode platform prefixHash := by
  intro grown shrunk complete
  have whole : complete = hashRing.preference platform prefixHash :=
    HashRing.preferredNodes_length_entries platform hashRing prefixHash
  refine ⟨HashRing.preferredNode_addNode platform hashRing nodeId prefixHash, ?_, ?_, ?_⟩
  · intro entry member
    rw [whole]
    exact HashRing.mem_preference.mpr ⟨entry.1, member⟩
  · rw [HashRing.preferredNodes_eq, HashRing.preference_removeNode, whole, max_eq_left positive]
  · rw [whole]
    exact HashRing.preferredNode_removeNode platform hashRing nodeId prefixHash

/-- Two nodes with one position each: without the first choice, a prefix hash goes to
the second. -/
theorem minimal_key_movement_second_choice :
    let hashRing := run (HashRing.apply .release) (HashRing.new 1) [.addNode "a", .addNode "b"]
    hashRing.preferredNode .release (.ofByte 0) = some "b" ∧
      (hashRing.removeNode "b").preferredNode .release (.ofByte 0) =
        (hashRing.preferredNodes .release (.ofByte 0) hashRing.ring.entries.length)[1]? := by
  intro hashRing
  have firstChoice : hashRing.preferredNode .release (.ofByte 0) = some "b" := by decide +kernel
  have moved := (minimal_key_movement .release hashRing "b" (.ofByte 0) le_rfl).2.2.2
  rw [if_pos firstChoice] at moved
  exact ⟨firstChoice, moved⟩

/-! ## Distances -/

/-- `(to - from) mod 2^64`. -/
def clockwiseDistance (start key : Nat) : Nat := (key + 2 ^ 64 - start) % 2 ^ 64

theorem clockwiseDistance_lt {start left right : Nat} (startLt : start < 2 ^ 64)
    (leftLt : left < 2 ^ 64) (rightLt : right < 2 ^ 64)
    (before : ClockwiseBefore start left right) :
    clockwiseDistance start left < clockwiseDistance start right := by
  unfold clockwiseDistance
  rcases before with ⟨reached, below⟩ | ⟨sameSide, ascending⟩
  · omega
  · omega

namespace HashRing

/-- The distances of a node's positions. -/
def distances (hashRing : HashRing) (start : Nat) (nodeId : String) : Set Nat :=
  {distance | ∃ key, (key, nodeId) ∈ hashRing.ring ∧ clockwiseDistance start key = distance}

/-- The least distance of a node's positions. -/
noncomputable def leastDistance (hashRing : HashRing) (start : Nat) (nodeId : String) : Nat :=
  sInf (hashRing.distances start nodeId)

/-- The positions are `u64` values. -/
def Positioned (hashRing : HashRing) : Prop := ∀ entry ∈ hashRing.ring, entry.1 < 2 ^ 64

variable {platform : Platform} {hashRing : HashRing} {prefixHash : PrefixHash}

theorem run_positioned (platform : Platform) (vnodesPerNode : UInt32) (calls : List RingCall) :
    (run (HashRing.apply platform) (new vnodesPerNode) calls).Positioned := by
  apply @run_invariant _ _ (HashRing.apply platform) Positioned
  · intro hashRing call positioned entry member
    cases call with
    | addNode nodeId =>
        rcases mem_addNode member with old | ⟨-, number, placed⟩
        · exact positioned entry old
        · rw [← placed]
          exact hashPosition_lt _ _
    | removeNode nodeId =>
        exact positioned entry (SortedMap.mem_retain.mp member).1
  · intro entry member
    exact absurd member (SortedMap.notMem_empty entry)

/-- The preference list goes by least distance. -/
theorem pairwise_preference (platform : Platform) (positioned : hashRing.Positioned)
    (prefixHash : PrefixHash) :
    (hashRing.preference platform prefixHash).Pairwise fun nearer farther =>
      hashRing.leastDistance (position platform prefixHash) nearer <
        hashRing.leastDistance (position platform prefixHash) farther := by
  have ordered := @pairwise_eraseDups_map _ _ _ _ Prod.snd _
    (hashRing.ring.pairwise_clockwise (position platform prefixHash))
  refine List.Pairwise.imp_of_mem ?_ ordered
  rintro nearer farther - fartherListed ⟨entry, member, rfl, ahead⟩
  obtain ⟨key, owned⟩ := mem_preference.mp fartherListed
  have nonempty : (hashRing.distances (position platform prefixHash) farther).Nonempty :=
    ⟨_, key, owned, rfl⟩
  obtain ⟨least, leastOwned, leastEq⟩ := Nat.sInf_mem nonempty
  have entryOwned : entry ∈ hashRing.ring := SortedMap.mem_clockwise.mp member
  calc hashRing.leastDistance (position platform prefixHash) entry.2
      ≤ clockwiseDistance (position platform prefixHash) entry.1 :=
        Nat.sInf_le ⟨entry.1, entryOwned, rfl⟩
    _ < clockwiseDistance (position platform prefixHash) least :=
        clockwiseDistance_lt (hashPosition_lt _ _) (positioned entry entryOwned)
          (positioned _ leastOwned)
          (ahead _ (SortedMap.mem_clockwise.mpr leastOwned) rfl)
    _ = hashRing.leastDistance (position platform prefixHash) farther := leastEq

end HashRing

/-- Preference lists are the clockwise order: on every non-empty ring, the nodes
preferred for a count are distinct owners, start the longer lists, come in the
order of their least clockwise distances, leave out no owner that is nearer than
one they have, and begin with the preferred node. -/
theorem preferredNodes_clockwise (platform : Platform) {hashRing : HashRing}
    (prefixHash : PrefixHash) {count more : Nat} (positioned : hashRing.Positioned)
    (nonempty : hashRing.ring.entries ≠ []) (positive : 1 ≤ count) (fewer : count ≤ more) :
    let start := HashRing.position platform prefixHash
    let preferred := hashRing.preferredNodes platform prefixHash count
    preferred.Nodup ∧
      preferred <+: hashRing.preferredNodes platform prefixHash more ∧
      (∀ nodeId ∈ preferred, nodeId ∈ hashRing.owners) ∧
      (preferred.Pairwise fun nearer farther =>
        hashRing.leastDistance start nearer < hashRing.leastDistance start farther) ∧
      (∀ omitted ∈ hashRing.owners, omitted ∉ preferred → ∀ listed ∈ preferred,
        hashRing.leastDistance start listed < hashRing.leastDistance start omitted) ∧
      ∃ first, preferred.head? = some first ∧
        hashRing.preferredNode platform prefixHash = some first := by
  intro start preferred
  have cut : preferred = (hashRing.preference platform prefixHash).take count := by
    rw [← max_eq_left positive]
    exact HashRing.preferredNodes_eq platform hashRing prefixHash count
  have ordered := HashRing.pairwise_preference platform positioned prefixHash
  have sub : preferred.Sublist (hashRing.preference platform prefixHash) := by
    rw [cut]
    exact List.take_sublist _ _
  refine ⟨?_, ?_, ?_, ordered.sublist sub, ?_, ?_⟩
  · exact (HashRing.nodup_preference platform hashRing prefixHash).sublist sub
  · rw [cut, HashRing.preferredNodes_eq]
    exact List.take_prefix_take_left (by omega)
  · intro nodeId listed
    exact HashRing.mem_owners.mpr (HashRing.mem_preference.mp (sub.subset listed))
  · intro omitted owns notListed listed isListed
    rw [cut] at notListed isListed
    exact rel_of_mem_take ordered isListed
      (HashRing.mem_preference.mpr (HashRing.mem_owners.mp owns)) notListed
  · obtain ⟨entry, member⟩ := List.exists_mem_of_ne_nil _ nonempty
    obtain ⟨first, isFirst, -⟩ := SortedMap.exists_head?_clockwise member start
    refine ⟨first.2, ?_, ?_⟩
    · rw [cut, List.head?_take, if_neg (by omega), HashRing.head?_preference,
        HashRing.preferredNode_eq, isFirst]
      rfl
    · rw [HashRing.preferredNode_eq, isFirst]
      rfl

/-- A prefix hash above every position: the walk wraps around, and two of three
nodes are the two nearest. -/
theorem preferredNodes_clockwise_wrapped :
    let hashRing := run (HashRing.apply .release) (HashRing.new 1)
      [.addNode "a", .addNode "b", .addNode "c"]
    let preferred := hashRing.preferredNodes .release (.ofByte 4) 2
    hashRing.ring.range (HashRing.position .release (.ofByte 4)) = [] ∧ preferred = ["a", "c"] ∧
      preferred <+: hashRing.preferredNodes .release (.ofByte 4) 3 := by
  intro hashRing preferred
  have positioned : hashRing.Positioned := HashRing.run_positioned .release 1 _
  obtain ⟨nonempty, wrapped, nearest⟩ : hashRing.ring.entries ≠ [] ∧
      hashRing.ring.range (HashRing.position .release (.ofByte 4)) = [] ∧
      preferred = ["a", "c"] := by decide +kernel
  have clockwise :=
    @preferredNodes_clockwise .release hashRing (.ofByte 4) 2 3 positioned nonempty (by decide)
      (by decide)
  exact ⟨wrapped, nearest, clockwise.2.1⟩

/-- `preferred_nodes` returns as many nodes as are asked for and own a position,
exactly when at least one is asked for or none owns any: the loop pushes a node
before it compares with the count. -/
theorem preferredNodes_length_iff (platform : Platform) (hashRing : HashRing)
    (prefixHash : PrefixHash) (count : Nat) :
    (hashRing.preferredNodes platform prefixHash count).length =
        min count hashRing.owners.card ↔
      1 ≤ count ∨ hashRing.ring.entries = [] := by
  have ownerless : hashRing.owners.card = 0 ↔ hashRing.ring.entries = [] := by
    simp [HashRing.owners]
  rw [HashRing.preferredNodes_eq, List.length_take, HashRing.length_preference, ← ownerless]
  omega

/-- Asked for no node, a ring of one node returns it. -/
theorem preferredNodes_zero_of_one_node :
    let hashRing := run (HashRing.apply .release) (HashRing.new 1) [.addNode "a"]
    hashRing.preferredNodes .release (.ofByte 0) 0 = ["a"] ∧
      (hashRing.preferredNodes .release (.ofByte 0) 0).length ≠ min 0 hashRing.owners.card := by
  decide +kernel

end CmxRdma.Agent
