import Mathlib.Data.List.Perm.Basic
import CmxRdma.Lib.Transition
import CmxRdma.Memory.Pool

/-!
Contract: a memory pool together with the handles its callers hold.

Owns: runs of `allocate` and `deallocate` in which only held handles are given
back, and that free list and held handles partition the blocks along every such
run. Each call runs under the free list's mutex, so a run is also every
interleaving of atomic calls.

Does not own: a handle given back twice, which the source leaves to its caller,
and pools whose block indices do not fit a handle.
-/

namespace CmxRdma.Memory

open CmxRdma.Lib.Transition

/-- The bytes of a handle's block. -/
def BlockHandle.Covers (handle : BlockHandle) (address : Nat) : Prop :=
  handle.offset ≤ address ∧ address < handle.offset + handle.size

/-- A pool and the handles that were allocated and not given back. -/
structure PoolUse where
  pool : MemoryPool
  live : List BlockHandle

inductive PoolCall where
  | allocate
  | deallocate (handle : BlockHandle)

inductive PoolAnswer where
  | allocated (handle : Option BlockHandle)
  | freed (outcome : Except Panic Unit)

namespace PoolUse

/-- The live handles' block indices. -/
def liveBlocks (use : PoolUse) : List Nat := use.live.map fun handle => handle.blockIndex.toNat

def step (use : PoolUse) : PoolCall → PoolUse × PoolAnswer
  | .allocate =>
      match use.pool.allocate with
      | none => (use, .allocated none)
      | some (handle, pool) => (⟨pool, handle :: use.live⟩, .allocated (some handle))
  | .deallocate handle =>
      match use.pool.deallocate handle with
      | .error panic => (use, .freed (.error panic))
      | .ok pool => (⟨pool, use.live.erase handle⟩, .freed (.ok ()))

/-- Only a live handle is given back. -/
def GivesBackLive (use : PoolUse) : PoolCall → Prop
  | .allocate => True
  | .deallocate handle => handle ∈ use.live

instance (use : PoolUse) (call : PoolCall) : Decidable (use.GivesBackLive call) :=
  match call with
  | .allocate => inferInstanceAs (Decidable True)
  | .deallocate handle => inferInstanceAs (Decidable (handle ∈ use.live))

/-! ## The partition -/

/-- Free list and live handles split the blocks, and every live handle is the one
`allocate` makes for its block. -/
structure Partitioned (geometry : Geometry) (use : PoolUse) : Prop where
  geometryEq : use.pool.geometry = geometry
  split : (use.pool.freeList ++ use.liveBlocks).Perm (List.range geometry.totalBlocks)
  named : ∀ handle ∈ use.live,
    handle = MemoryPool.handleFor geometry handle.blockIndex.toNat

section Steps

variable {geometry : Geometry} {use : PoolUse}

theorem fresh_partitioned (geometry : Geometry) :
    Partitioned geometry ⟨MemoryPool.fresh geometry, []⟩ where
  geometryEq := rfl
  split := by simp [liveBlocks, MemoryPool.fresh]
  named := by simp

/-- A block index of a pool that is not too large survives the handle's 32 bits. -/
theorem handleFor_blockIndex (indexable : geometry.totalBlocks ≤ 2 ^ 32) {block : Nat}
    (inside : block < geometry.totalBlocks) :
    (MemoryPool.handleFor geometry block).blockIndex.toNat = block := by
  have fits : block < 2 ^ 32 := lt_of_lt_of_le inside indexable
  exact UInt32.toNat_ofNat_of_lt' fits

/-- The top free block becomes live, whatever happens to the bytes. -/
theorem Partitioned.pop (partitioned : Partitioned geometry use)
    (indexable : geometry.totalBlocks ≤ 2 ^ 32) {pool : MemoryPool} {block : Nat}
    (popped : use.pool.freeList = pool.freeList ++ [block])
    (geometryKept : pool.geometry = geometry) :
    Partitioned geometry ⟨pool, MemoryPool.handleFor geometry block :: use.live⟩ := by
  have inside : block < geometry.totalBlocks := by
    rw [← partitioned.geometryEq]
    exact use.pool.freeBelow block (by simp [popped])
  have sameIndex := handleFor_blockIndex indexable inside
  refine ⟨geometryKept, ?_, ?_⟩
  · have moved : pool.freeList ++
          liveBlocks ⟨pool, MemoryPool.handleFor geometry block :: use.live⟩ =
        use.pool.freeList ++ use.liveBlocks := by
      rw [popped, liveBlocks, List.map_cons, sameIndex, List.append_assoc]
      rfl
    rw [moved]
    exact partitioned.split
  · intro other member
    rcases List.mem_cons.mp member with rfl | old
    · rw [sameIndex]
    · exact partitioned.named other old

theorem Partitioned.allocate (partitioned : Partitioned geometry use)
    (indexable : geometry.totalBlocks ≤ 2 ^ 32) {handle : BlockHandle} {pool : MemoryPool}
    (allocated : use.pool.allocate = some (handle, pool)) :
    Partitioned geometry ⟨pool, handle :: use.live⟩ := by
  obtain ⟨block, popped, rfl, geometryKept, -⟩ := MemoryPool.allocate_eq_some allocated
  rw [partitioned.geometryEq] at geometryKept ⊢
  exact partitioned.pop indexable popped geometryKept

/-- Live handles are told apart by their blocks. -/
theorem Partitioned.live_nodup (partitioned : Partitioned geometry use) :
    use.liveBlocks.Nodup :=
  (List.nodup_append.mp (partitioned.split.nodup_iff.mpr List.nodup_range)).2.1

/-- A live block is not free. -/
theorem Partitioned.notMem_freeList (partitioned : Partitioned geometry use)
    {handle : BlockHandle} (live : handle ∈ use.live) :
    handle.blockIndex.toNat ∉ use.pool.freeList := by
  intro free
  have apart := (List.nodup_append.mp (partitioned.split.nodup_iff.mpr List.nodup_range)).2.2
  exact apart _ free _ (List.mem_map.mpr ⟨handle, live, rfl⟩) rfl

theorem Partitioned.inside (partitioned : Partitioned geometry use) {handle : BlockHandle}
    (live : handle ∈ use.live) : handle.blockIndex.toNat < geometry.totalBlocks := by
  apply List.mem_range.mp
  apply partitioned.split.subset
  exact List.mem_append_right _ (List.mem_map.mpr ⟨handle, live, rfl⟩)

/-- Giving back a live handle meets both assertions. -/
theorem Partitioned.deallocate_returns (partitioned : Partitioned geometry use)
    {handle : BlockHandle} (live : handle ∈ use.live) :
    ∃ pool, use.pool.deallocate handle = .ok pool := by
  apply MemoryPool.exists_deallocate
  · rw [partitioned.named handle live, partitioned.geometryEq]
    rfl
  · rw [partitioned.geometryEq]
    exact partitioned.inside live

theorem Partitioned.deallocate (partitioned : Partitioned geometry use) {handle : BlockHandle}
    (live : handle ∈ use.live) {pool : MemoryPool}
    (freed : use.pool.deallocate handle = .ok pool) :
    Partitioned geometry ⟨pool, use.live.erase handle⟩ := by
  obtain ⟨-, -, pushed, geometryKept, -⟩ := MemoryPool.deallocate_eq_ok freed
  refine ⟨geometryKept.trans partitioned.geometryEq, ?_, ?_⟩
  · have moved : (pool.freeList ++ liveBlocks ⟨pool, use.live.erase handle⟩).Perm
        (use.pool.freeList ++ use.liveBlocks) := by
      rw [pushed, List.append_assoc, liveBlocks, liveBlocks]
      exact List.Perm.append_left _ ((List.perm_cons_erase live).symm.map
        fun handle : BlockHandle => handle.blockIndex.toNat)
    exact moved.trans partitioned.split
  · intro other member
    exact partitioned.named other (List.mem_of_mem_erase member)

theorem step_partitioned (indexable : geometry.totalBlocks ≤ 2 ^ 32) (call : PoolCall)
    (givesBack : use.GivesBackLive call) (partitioned : Partitioned geometry use) :
    Partitioned geometry (next step use call) := by
  cases call with
  | allocate =>
      rcases outcome : use.pool.allocate with _ | ⟨handle, pool⟩
      · simpa only [next, step, outcome] using partitioned
      · simpa only [next, step, outcome] using partitioned.allocate indexable outcome
  | deallocate handle =>
      obtain ⟨pool, freed⟩ := partitioned.deallocate_returns givesBack
      simpa only [next, step, freed] using partitioned.deallocate givesBack freed

/-! ## What a partition gives -/

theorem Partitioned.length (partitioned : Partitioned geometry use) :
    use.pool.freeList.length + use.live.length = geometry.totalBlocks := by
  have sameLength := partitioned.split.length_eq
  simpa [liveBlocks] using sameLength

theorem Partitioned.stats (partitioned : Partitioned geometry use) :
    use.pool.stats.usedBlocks = use.live.length ∧
      use.pool.stats.freeBlocks = geometry.totalBlocks - use.pool.stats.usedBlocks := by
  have balance := partitioned.length
  simp only [MemoryPool.stats, partitioned.geometryEq]
  omega

theorem Partitioned.allocate_eq_none_iff (partitioned : Partitioned geometry use) :
    use.pool.allocate = none ↔ use.live.length = geometry.totalBlocks := by
  have balance := partitioned.length
  rw [MemoryPool.allocate_eq_none_iff, ← List.length_eq_zero_iff]
  omega

/-- A live handle's bytes are those of its block. -/
theorem Partitioned.covers_iff (partitioned : Partitioned geometry use) {handle : BlockHandle}
    (live : handle ∈ use.live) (address : Nat) :
    handle.Covers address ↔ address / geometry.blockSize = handle.blockIndex.toNat := by
  have offsetEq : handle.offset = handle.blockIndex.toNat * geometry.blockSize :=
    congrArg BlockHandle.offset (partitioned.named handle live)
  have sizeEq : handle.size = geometry.blockSize :=
    congrArg BlockHandle.size (partitioned.named handle live)
  rw [BlockHandle.Covers, offsetEq, sizeEq, Nat.div_eq_iff geometry.blockSizePos]
  have positive := geometry.blockSizePos
  omega

theorem Partitioned.disjoint (partitioned : Partitioned geometry use) :
    use.live.Pairwise fun first second =>
      ∀ address, first.Covers address → ¬ second.Covers address := by
  have apart : use.live.Pairwise fun first second =>
      first.blockIndex.toNat ≠ second.blockIndex.toNat := List.pairwise_map.mp partitioned.live_nodup
  refine apart.imp_of_mem ?_
  intro first second firstLive secondLive different address inFirst inSecond
  rw [partitioned.covers_iff firstLive] at inFirst
  rw [partitioned.covers_iff secondLive] at inSecond
  exact different (inFirst.symm.trans inSecond)

theorem Partitioned.within (partitioned : Partitioned geometry use) {handle : BlockHandle}
    (live : handle ∈ use.live) : handle.offset + handle.size ≤ geometry.totalSize := by
  have inside := partitioned.inside live
  rw [partitioned.named handle live, MemoryPool.handleFor, geometry.sizeEq, ← Nat.succ_mul]
  exact Nat.mul_le_mul_right _ inside

end Steps

theorem run_partitioned {geometry : Geometry} (indexable : geometry.totalBlocks ≤ 2 ^ 32)
    {calls : List PoolCall}
    (givesBack : Allows (next step) GivesBackLive ⟨MemoryPool.fresh geometry, []⟩ calls) :
    Partitioned geometry (run (next step) ⟨MemoryPool.fresh geometry, []⟩ calls) :=
  run_invariant_of_allows (fun _ call => step_partitioned indexable call)
    (fresh_partitioned geometry) givesBack

end PoolUse

/-- A pool that `new` accepted is fresh and has the size asked for. -/
theorem MemoryPool.new_eq_ok {poolId : UInt32} {totalSize blockSize : UInt64} {pool : MemoryPool}
    (accepted : MemoryPool.new poolId totalSize blockSize = .ok pool) :
    ∃ geometry : Geometry, pool = MemoryPool.fresh geometry ∧
      geometry.totalSize = totalSize.toNat := by
  unfold MemoryPool.new at accepted
  split at accepted
  · cases accepted
  · split at accepted
    · cases accepted
    · cases accepted
      exact ⟨_, rfl, rfl⟩

/-- The pool partition: along every run that gives back only live handles, the
free list and the live handles' blocks hold every block exactly once; the live
handles cover disjoint ranges inside the pool; the pool is exhausted exactly
when all its blocks are live; and the statistics count the live handles. -/
theorem pool_partition {poolId : UInt32} {totalSize blockSize : UInt64} {pool : MemoryPool}
    (accepted : MemoryPool.new poolId totalSize blockSize = .ok pool)
    (indexable : pool.geometry.totalBlocks ≤ 2 ^ 32) {calls : List PoolCall}
    (givesBack : Allows (next PoolUse.step) PoolUse.GivesBackLive ⟨pool, []⟩ calls) :
    let use := run (next PoolUse.step) ⟨pool, []⟩ calls
    (use.pool.freeList ++ use.liveBlocks).Nodup ∧
      (∀ block, block ∈ use.pool.freeList ++ use.liveBlocks ↔
        block < pool.geometry.totalBlocks) ∧
      (use.live.Pairwise fun first second =>
        ∀ address, first.Covers address → ¬ second.Covers address) ∧
      (∀ handle ∈ use.live, handle.offset + handle.size ≤ totalSize.toNat) ∧
      (use.pool.allocate = none ↔ use.live.length = pool.geometry.totalBlocks) ∧
      use.pool.stats.usedBlocks = use.live.length ∧
      use.pool.stats.freeBlocks = pool.geometry.totalBlocks - use.pool.stats.usedBlocks := by
  obtain ⟨geometry, rfl, sizeEq⟩ := MemoryPool.new_eq_ok accepted
  have partitioned := @PoolUse.run_partitioned geometry indexable calls givesBack
  refine ⟨partitioned.split.nodup_iff.mpr List.nodup_range, ?_, partitioned.disjoint, ?_,
    partitioned.allocate_eq_none_iff, partitioned.stats⟩
  · intro block
    rw [partitioned.split.mem_iff]
    exact List.mem_range
  · intro handle live
    rw [← sizeEq]
    exact partitioned.within live

/-- Both blocks are taken, the first one is given back and taken again: the pool is
exhausted. -/
theorem pool_partition_two_blocks :
    let calls : List PoolCall := [.allocate, .allocate,
      .deallocate (MemoryPool.handleFor Geometry.twoBlocks 1), .allocate]
    (run (next PoolUse.step) ⟨MemoryPool.fresh Geometry.twoBlocks, []⟩ calls).pool.allocate =
      none := by
  intro calls
  have accepted : MemoryPool.new 0 64 32 = .ok (MemoryPool.fresh Geometry.twoBlocks) := rfl
  have givesBack : Allows (next PoolUse.step) PoolUse.GivesBackLive
      ⟨MemoryPool.fresh Geometry.twoBlocks, []⟩ calls := by decide +kernel
  exact (pool_partition accepted (by decide) givesBack).2.2.2.2.1.mpr rfl

end CmxRdma.Memory
