import Mathlib.Data.List.Range
import Mathlib.Data.Multiset.Dedup
import Mathlib.Data.Multiset.Range
import CmxRdma.Agent.Interleaving

/-!
Contract: exclusive ownership of blocks under concurrent Stores and Deletes.

Owns: the multiset of owners of a state, the placement of a location in its
pool, their preservation by every step of every interleaving, and what the pool
can rely on although it checks nothing: no double free, no block handed out
twice, statistics that add up.

Does not own: pools of more than `2 ^ 32` blocks, whose indices do not fit the
`u32` of a location; see `Generations`.
-/

namespace CmxRdma.Agent

open CmxRdma.BlockStore
open CmxRdma.Lib.Transition
open CmxRdma.Memory

/-- A location names the block its offset points to. -/
structure Placed (geometry : Geometry) (location : BlockLocation) : Prop where
  inPool : location.blockIndex.toNat < geometry.totalBlocks
  offsetEq : location.offset.toNat = location.blockIndex.toNat * geometry.blockSize
  sizeEq : location.blockSize.toNat = geometry.blockSize

/-- Every block index with its owners: on the free list, or named by a held
location. -/
def owners (allocator : BlockAllocator) (held : Multiset BlockLocation) : Multiset Nat :=
  ↑allocator.pool.freeList + held.map fun location => location.blockIndex.toNat

/-- Every block has at most one owner, and held locations are placed. -/
structure Exclusive (geometry : Geometry) (allocator : BlockAllocator)
    (held : Multiset BlockLocation) : Prop where
  geometryEq : allocator.pool.geometry = geometry
  nodup : (owners allocator held).Nodup
  placed : ∀ location ∈ held, Placed geometry location

/-! ## The location of a fresh block -/

theorem block_end_le (geometry : Geometry) {block : Nat} (inside : block < geometry.totalBlocks) :
    block * geometry.blockSize + geometry.blockSize ≤ geometry.totalSize := by
  rw [geometry.sizeEq, ← Nat.succ_mul]
  exact Nat.mul_le_mul_right _ inside

theorem blockIndex_locationFor {allocator : BlockAllocator} {block : Nat}
    (small : allocator.pool.geometry.totalBlocks ≤ 2 ^ 32)
    (inside : block < allocator.pool.geometry.totalBlocks) :
    (allocator.locationFor block).blockIndex.toNat = block := by
  simp only [BlockAllocator.locationFor, UInt32.toNat_ofNat']
  exact Nat.mod_eq_of_lt (lt_of_lt_of_le inside small)

theorem offset_locationFor {allocator : BlockAllocator} {block : Nat}
    (inside : block < allocator.pool.geometry.totalBlocks) :
    (allocator.locationFor block).offset.toNat = block * allocator.pool.geometry.blockSize := by
  have ends := block_end_le allocator.pool.geometry inside
  have bound := allocator.pool.geometry.sizeLt
  have positive := allocator.pool.geometry.blockSizePos
  simp only [BlockAllocator.locationFor, UInt64.toNat_ofNat']
  exact Nat.mod_eq_of_lt (by unfold usizeBound at bound; omega)

theorem blockSize_locationFor (allocator : BlockAllocator) (block : Nat) :
    (allocator.locationFor block).blockSize.toNat = allocator.pool.geometry.blockSize := by
  have ends := block_end_le allocator.pool.geometry allocator.pool.geometry.blocksPos
  have bound := allocator.pool.geometry.sizeLt
  simp only [BlockAllocator.locationFor, UInt64.toNat_ofNat']
  exact Nat.mod_eq_of_lt (by unfold usizeBound at bound; omega)

theorem placed_locationFor {allocator : BlockAllocator} {block : Nat}
    (small : allocator.pool.geometry.totalBlocks ≤ 2 ^ 32)
    (inside : block < allocator.pool.geometry.totalBlocks) :
    Placed allocator.pool.geometry (allocator.locationFor block) where
  inPool := by rwa [blockIndex_locationFor small inside]
  offsetEq := by rw [blockIndex_locationFor small inside, offset_locationFor inside]
  sizeEq := blockSize_locationFor allocator block

/-! ## Steps -/

/-- Owners only lose members, or one moves from the free list to the held
locations or back. -/
theorem Exclusive.effect {platform : Platform} {geometry : Geometry}
    {allocator allocator' : BlockAllocator} {held held' : Multiset BlockLocation}
    {written : List Write} (small : geometry.totalBlocks ≤ 2 ^ 32)
    (exclusive : Exclusive geometry allocator held)
    (effect : System.Effect platform allocator held allocator' held' written) :
    Exclusive geometry allocator' held' := by
  obtain ⟨geometryEq, nodup, placed⟩ := exclusive
  cases effect with
  | quiet fewer =>
      refine ⟨geometryEq, ?_, fun location member => ?_⟩
      · exact Multiset.nodup_of_le (add_le_add le_rfl (Multiset.map_le_map fewer)) nodup
      · exact placed location (Multiset.mem_of_le fewer member)
  | @write _ _ key data location handle outcome =>
      obtain ⟨block, freeEq, fits, rfl, geometryKept, -⟩ :=
        BlockAllocator.allocateAndWrite_eq_some outcome
      have inside : block < allocator.pool.geometry.totalBlocks :=
        allocator.pool.freeBelow block (by simp [freeEq])
      rw [← geometryEq] at small placed ⊢
      refine ⟨geometryKept, ?_, ?_⟩
      · simp only [owners, Multiset.map_cons, blockIndex_locationFor small inside]
        simp only [owners, freeEq, ← Multiset.coe_add, Multiset.coe_singleton] at nodup
        rwa [← Multiset.singleton_add, ← add_assoc]
      · intro location member
        rcases Multiset.mem_cons.mp member with rfl | old
        · exact placed_locationFor small inside
        · exact placed location old
  | @lose _ _ data panic outcome =>
      obtain ⟨-, unchanged | ⟨-, -, block, freeEq, geometryKept, -⟩⟩ :=
        BlockAllocator.allocateAndWrite_eq_error outcome
      · rw [unchanged.2]
        exact ⟨geometryEq, nodup, placed⟩
      · refine ⟨geometryKept.trans geometryEq, ?_, placed⟩
        refine Multiset.nodup_of_le ?_ nodup
        simp only [owners, freeEq, ← Multiset.coe_add]
        exact add_le_add (Multiset.le_add_right _ _) le_rfl
  | @free _ _ location freed =>
      obtain ⟨pool, poolFreed, rfl⟩ := BlockAllocator.deallocate_eq_ok freed
      obtain ⟨-, -, freeEq, geometryKept, -⟩ := MemoryPool.deallocate_eq_ok poolFreed
      refine ⟨geometryKept.trans geometryEq, ?_, fun other member => ?_⟩
      · simp only [owners, Multiset.map_cons] at nodup
        simp only [owners, freeEq, ← Multiset.coe_add, Multiset.coe_singleton]
        rwa [add_assoc, Multiset.singleton_add]
      · exact placed other (Multiset.mem_cons_of_mem member)

/-- The invariant as a property of a system. -/
def System.Exclusive (geometry : Geometry) (system : System) : Prop :=
  Agent.Exclusive geometry system.allocator system.held

theorem new_exclusive (geometry : Geometry) (nodeId : UInt32) (capacity : Nat) :
    (System.new geometry nodeId capacity).Exclusive geometry := by
  refine ⟨rfl, ?_, ?_⟩
  · have noneHeld : (System.new geometry nodeId capacity).held = 0 := rfl
    rw [noneHeld, owners, Multiset.map_zero, add_zero, Multiset.coe_nodup]
    exact List.nodup_range
  · intro location member
    exact absurd member (Multiset.notMem_zero location)

theorem System.Exclusive.run {geometry : Geometry} {system : System}
    (exclusive : system.Exclusive geometry) (small : geometry.totalBlocks ≤ 2 ^ 32)
    (platform : Platform) (actions : List Action) :
    (run (System.step platform) system actions).Exclusive geometry := by
  refine run_invariant ?_ exclusive actions
  intro system action exclusive
  obtain ⟨written, effect, -⟩ := System.step_effect platform system action
  exact Agent.Exclusive.effect small exclusive effect

theorem run_exclusive {geometry : Geometry} (small : geometry.totalBlocks ≤ 2 ^ 32)
    (platform : Platform) (nodeId : UInt32) (capacity : Nat) (actions : List Action) :
    (run (System.step platform) (System.new geometry nodeId capacity) actions).Exclusive
      geometry :=
  (new_exclusive geometry nodeId capacity).run small platform actions

/-- The invariant for an agent that handles one event at a time. -/
theorem Exclusive.run_react {geometry : Geometry} {service : CacheService}
    (exclusive : Exclusive geometry service.allocator service.index.locations)
    (small : geometry.totalBlocks ≤ 2 ^ 32) (platform : Platform) (events : List Event) :
    let after := run (next (CacheService.react platform)) service events
    Exclusive geometry after.allocator after.index.locations := by
  intro after
  let system := System.idle service.allocator service.index
  have shown : system.Shows service := ⟨rfl, rfl, rfl, rfl, rfl⟩
  have start : system.Exclusive geometry := by
    rw [System.Exclusive, shown.held_eq]
    exact exclusive
  obtain ⟨actions, shownAfter⟩ := System.run_react_eq_run platform shown events
  have ends := start.run small platform actions
  rwa [System.Exclusive, shownAfter.allocator, shownAfter.held_eq] at ends

theorem run_react_exclusive {geometry : Geometry} (small : geometry.totalBlocks ≤ 2 ^ 32)
    (platform : Platform) (capacity : Nat) (nodeId : String) (metadata : Bool)
    (remoteIndex : Option RemoteIndex) (events : List Event) :
    let service := run (next (CacheService.react platform))
      (CacheService.new geometry capacity nodeId metadata remoteIndex) events
    Exclusive geometry service.allocator service.index.locations := by
  have start := new_exclusive geometry 0 capacity
  rw [System.Exclusive, (System.new_shows geometry capacity nodeId metadata remoteIndex).held_eq]
    at start
  exact start.run_react small platform events

/-! ## Consequences -/

section Consequences

variable {geometry : Geometry} {allocator : BlockAllocator} {held : Multiset BlockLocation}

theorem Exclusive.freeList_nodup (exclusive : Exclusive geometry allocator held) :
    allocator.pool.freeList.Nodup := by
  have nodup := Multiset.nodup_of_le (Multiset.le_add_right _ _) exclusive.nodup
  exact Multiset.coe_nodup.mp nodup

theorem Exclusive.freeList_length_le (exclusive : Exclusive geometry allocator held) :
    allocator.pool.freeList.length ≤ geometry.totalBlocks := by
  have inRange : allocator.pool.freeList ⊆ List.range geometry.totalBlocks := by
    intro block member
    rw [List.mem_range, ← exclusive.geometryEq]
    exact allocator.pool.freeBelow block member
  simpa using (exclusive.freeList_nodup.subperm inRange).length_le

/-- A held block is not on the free list, so freeing it is not a double free and
the next Store does not get it. -/
theorem Exclusive.notMem_freeList (exclusive : Exclusive geometry allocator held)
    {location : BlockLocation} (member : location ∈ held) :
    location.blockIndex.toNat ∉ allocator.pool.freeList := by
  intro free
  have apart := (Multiset.nodup_add.mp exclusive.nodup).2.2
  exact Multiset.disjoint_left.mp apart (Multiset.mem_coe.mpr free)
    (Multiset.mem_map_of_mem _ member)

/-- When no block is missing from the owners, each has one. -/
theorem Exclusive.exists_location (exclusive : Exclusive geometry allocator held)
    (complete : allocator.pool.freeList.length + Multiset.card held = geometry.totalBlocks)
    {block : Nat} (inside : block < geometry.totalBlocks)
    (taken : block ∉ allocator.pool.freeList) :
    ∃ location ∈ held, location.blockIndex.toNat = block := by
  have inRange : owners allocator held ⊆ Multiset.range geometry.totalBlocks := by
    intro owned member
    rw [Multiset.mem_range]
    rcases Multiset.mem_add.mp member with free | named
    · rw [← exclusive.geometryEq]
      exact allocator.pool.freeBelow owned free
    · obtain ⟨location, isHeld, rfl⟩ := Multiset.mem_map.mp named
      exact (exclusive.placed location isHeld).inPool
  have everyBlock : owners allocator held = Multiset.range geometry.totalBlocks := by
    apply Multiset.eq_of_le_of_card_le ((Multiset.le_iff_subset exclusive.nodup).mpr inRange)
    simp [owners, complete]
  have owned : block ∈ owners allocator held := by
    rw [everyBlock]
    exact Multiset.mem_range.mpr inside
  rcases Multiset.mem_add.mp owned with free | named
  · exact absurd free taken
  · simpa using named

theorem Placed.blockSize_eq {location : BlockLocation} (placed : Placed geometry location) :
    location.blockSize = UInt64.ofNat geometry.blockSize := by
  rw [← placed.sizeEq, UInt64.ofNat_toNat]

theorem Placed.end_le {location : BlockLocation} (placed : Placed geometry location) :
    location.offset.toNat + geometry.blockSize ≤ geometry.totalSize := by
  rw [placed.offsetEq]
  exact block_end_le geometry placed.inPool

end Consequences

/-- Exclusive block ownership in every state of every interleaving: each block
index has at most one owner among the free list, the index entries, the Stores
and the Deletes in flight; so a pending free is no double free, the block the
next Store gets is nobody's, the statistics add up and every indexed location
lies where its index says. -/
theorem blocks_have_one_owner (platform : Platform) (geometry : Geometry)
    (small : geometry.totalBlocks ≤ 2 ^ 32) (nodeId : UInt32) (capacity : Nat)
    (actions : List Action) :
    let system := run (System.step platform) (System.new geometry nodeId capacity) actions
    let free := system.allocator.pool.freeList
    (↑free + (system.index.locations + ↑(system.stores.map PendingStore.location) +
        ↑system.deletes.flatten).map fun location => location.blockIndex.toNat).Nodup ∧
      free.Nodup ∧ (∀ block ∈ free, block < geometry.totalBlocks) ∧
      (∀ pending ∈ system.deletes, ∀ location ∈ pending, location.blockIndex.toNat ∉ free) ∧
      (∀ block ∈ free.getLast?, ∀ location ∈ system.held, location.blockIndex.toNat ≠ block) ∧
      system.allocator.stats.usedBlocks + system.allocator.stats.freeBlocks =
        system.allocator.stats.totalBlocks ∧
      ∀ location ∈ system.index.locations,
        location.offset.toNat = location.blockIndex.toNat * geometry.blockSize ∧
          location.offset.toNat + geometry.blockSize ≤ geometry.totalSize := by
  intro system free
  have exclusive : Exclusive geometry system.allocator system.held :=
    run_exclusive small platform nodeId capacity actions
  refine ⟨exclusive.nodup, exclusive.freeList_nodup, ?_, ?_, ?_, ?_, ?_⟩
  · intro block member
    rw [← exclusive.geometryEq]
    exact system.allocator.pool.freeBelow block member
  · intro pending inFlight location member
    exact exclusive.notMem_freeList (System.mem_held_of_mem_deletes inFlight member)
  · intro block top location isHeld sameBlock
    exact exclusive.notMem_freeList isHeld (sameBlock ▸ List.mem_of_getLast? top)
  · have bounded := exclusive.freeList_length_le
    rw [← exclusive.geometryEq] at bounded
    simp only [BlockAllocator.stats, MemoryPool.stats]
    omega
  · intro location member
    have placed := exclusive.placed location (System.mem_held_of_mem_locations member)
    exact ⟨placed.offsetEq, placed.end_le⟩

/-- Two Stores of one key race a Delete on a pool of two blocks. -/
theorem blocks_have_one_owner_race :
    Geometry.twoBlocks.totalBlocks ≤ 2 ^ 32 ∧
      (run (System.step Platform.release) (System.new Geometry.twoBlocks 0 2)
        [.storeWrite (.ofByte 1) [7], .storeWrite (.ofByte 1) [8], .storeInsert 1 0,
          .deleteRemove (.ofByte 1), .storeInsert 0 0,
          .deleteFree 0]).allocator.pool.freeList.Nodup :=
  ⟨by decide, (blocks_have_one_owner Platform.release Geometry.twoBlocks (by decide) 0 2 _).2.1⟩

end CmxRdma.Agent
