import CmxRdma.BlockStore.Allocator
import CmxRdma.Memory.Partition

/-!
Contract: a block allocator together with the handles its callers hold.

Owns: runs of `allocate_and_write` and `deallocate`, that a block written for a
held handle keeps its contents until the handle is given back, whatever is
written to other blocks and whatever the block held before, and that
`read_verified` returns them.

Does not own: a handle given back twice; pools whose block indices do not fit a
handle or whose blocks cannot hold a header, see `Agent.Config`.
-/

namespace CmxRdma.BlockStore

open CmxRdma.Lib.ByteRegion
open CmxRdma.Lib.Transition
open CmxRdma.Memory

/-- An allocator and the handles that were returned and not given back. -/
structure AllocatorUse where
  allocator : BlockAllocator
  live : List BlockHandle

inductive AllocatorCall where
  | allocateAndWrite (data : List UInt8)
  | deallocate (handle : BlockHandle)
deriving DecidableEq

inductive AllocatorAnswer where
  | written (outcome : Except Panic (Option (BlockLocation × BlockHandle)))
  | freed (outcome : Except Panic Unit)

namespace AllocatorUse

/-- The pool's side of the use. -/
def poolUse (use : AllocatorUse) : PoolUse := ⟨use.allocator.pool, use.live⟩

def step (platform : Platform) (use : AllocatorUse) :
    AllocatorCall → AllocatorUse × AllocatorAnswer
  | .allocateAndWrite data =>
      match use.allocator.allocateAndWrite platform data with
      | (allocator, .error panic) => (⟨allocator, use.live⟩, .written (.error panic))
      | (allocator, .ok none) => (⟨allocator, use.live⟩, .written (.ok none))
      | (allocator, .ok (some (location, handle))) =>
          (⟨allocator, handle :: use.live⟩, .written (.ok (some (location, handle))))
  | .deallocate handle =>
      match use.allocator.deallocate handle with
      | .error panic => (use, .freed (.error panic))
      | .ok allocator => (⟨allocator, use.live.erase handle⟩, .freed (.ok ()))

/-- Only a live handle is given back. -/
def GivesBackLive (use : AllocatorUse) : AllocatorCall → Prop
  | .allocateAndWrite _ => True
  | .deallocate handle => handle ∈ use.live

instance (use : AllocatorUse) (call : AllocatorCall) : Decidable (use.GivesBackLive call) :=
  match call with
  | .allocateAndWrite _ => inferInstanceAs (Decidable True)
  | .deallocate handle => inferInstanceAs (Decidable (handle ∈ use.live))

/-- An allocator over a pool of which every block is free, with any bytes in it. -/
def start (geometry : Geometry) (region : Region) (nodeId : UInt32) : AllocatorUse where
  allocator := BlockAllocator.new { MemoryPool.fresh geometry with region := region } nodeId
  live := []

/-! ## What one call does -/

section Steps

variable {platform : Platform} {geometry : Geometry} {use : AllocatorUse}

/-- A write that returns a handle makes it live; one that does not changes nothing,
over blocks that hold a header. -/
theorem step_allocateAndWrite (platform : Platform) (use : AllocatorUse)
    (headerFits : BlockHeader.size ≤ use.allocator.pool.geometry.blockSize) (data : List UInt8) :
    use.step platform (.allocateAndWrite data) = (use, .written (.ok none)) ∨
      ∃ allocator location handle,
        use.allocator.allocateAndWrite platform data =
            (allocator, .ok (some (location, handle))) ∧
          use.step platform (.allocateAndWrite data) =
            (⟨allocator, handle :: use.live⟩, .written (.ok (some (location, handle)))) := by
  rcases outcome : use.allocator.allocateAndWrite platform data with ⟨allocator, result⟩
  rcases result with panic | refused | ⟨location, handle⟩
  · exact absurd (BlockAllocator.allocateAndWrite_eq_error outcome).1 (not_lt.mpr headerFits)
  · left
    rw [step, outcome, (BlockAllocator.allocateAndWrite_eq_none outcome).1]
  · right
    refine ⟨allocator, location, handle, rfl, ?_⟩
    rw [step, outcome]

theorem start_partitioned (geometry : Geometry) (region : Region) (nodeId : UInt32) :
    PoolUse.Partitioned geometry (start geometry region nodeId).poolUse where
  geometryEq := rfl
  split := by simp [start, poolUse, PoolUse.liveBlocks, BlockAllocator.new, MemoryPool.fresh]
  named := by simp [start, poolUse]

theorem partitioned_of_written (partitioned : PoolUse.Partitioned geometry use.poolUse)
    (indexable : geometry.totalBlocks ≤ 2 ^ 32) {allocator : BlockAllocator} {data : List UInt8}
    {location : BlockLocation} {handle : BlockHandle}
    (written : use.allocator.allocateAndWrite platform data =
      (allocator, .ok (some (location, handle)))) :
    PoolUse.Partitioned geometry ⟨allocator.pool, handle :: use.live⟩ := by
  obtain ⟨block, top, -, -, geometryKept, -⟩ := BlockAllocator.allocateAndWrite_eq_some written
  obtain rfl := BlockAllocator.allocateAndWrite_handle written top
  have geometryEq : use.allocator.pool.geometry = geometry := partitioned.geometryEq
  rw [geometryEq] at geometryKept ⊢
  exact partitioned.pop indexable top geometryKept

/-- Giving back a live handle returns, and takes it from the live ones. -/
theorem step_deallocate (partitioned : PoolUse.Partitioned geometry use.poolUse)
    {handle : BlockHandle} (live : handle ∈ use.live) :
    ∃ pool, use.allocator.pool.deallocate handle = .ok pool ∧
      use.step platform (.deallocate handle) =
        (⟨{ use.allocator with pool := pool }, use.live.erase handle⟩, .freed (.ok ())) := by
  obtain ⟨pool, freed⟩ := partitioned.deallocate_returns live
  refine ⟨pool, freed, ?_⟩
  have poolFreed : use.allocator.pool.deallocate handle = .ok pool := freed
  have deallocated : use.allocator.deallocate handle = .ok { use.allocator with pool := pool } := by
    simp [BlockAllocator.deallocate, poolFreed, bind, Except.bind, pure, Except.pure]
  simp only [step, deallocated]

theorem step_partitioned (platform : Platform) (headerFits : BlockHeader.size ≤ geometry.blockSize)
    (indexable : geometry.totalBlocks ≤ 2 ^ 32) (call : AllocatorCall)
    (givesBack : use.GivesBackLive call)
    (partitioned : PoolUse.Partitioned geometry use.poolUse) :
    PoolUse.Partitioned geometry (next (step platform) use call).poolUse := by
  cases call with
  | allocateAndWrite data =>
      have geometryEq : use.allocator.pool.geometry = geometry := partitioned.geometryEq
      rcases step_allocateAndWrite platform use (geometryEq ▸ headerFits) data with
        unchanged | ⟨allocator, location, handle, written, stepped⟩
      · rw [next, unchanged]
        exact partitioned
      · rw [next, stepped]
        exact partitioned_of_written partitioned indexable written
  | deallocate handle =>
      obtain ⟨pool, freed, stepped⟩ := @step_deallocate platform _ _ partitioned _ givesBack
      rw [next, stepped]
      exact partitioned.deallocate givesBack freed

theorem geometry_next (platform : Platform) (use : AllocatorUse) (call : AllocatorCall) :
    (next (step platform) use call).allocator.pool.geometry = use.allocator.pool.geometry := by
  cases call with
  | allocateAndWrite data =>
      rcases outcome : use.allocator.allocateAndWrite platform data with ⟨allocator, result⟩
      rcases result with panic | refused | ⟨location, handle⟩
      · simp only [next, step, outcome]
        obtain ⟨-, ⟨-, same⟩ | ⟨-, -, -, -, geometryKept, -⟩⟩ :=
          BlockAllocator.allocateAndWrite_eq_error outcome
        · rw [same]
        · exact geometryKept
      · simp only [next, step, outcome]
        rw [(BlockAllocator.allocateAndWrite_eq_none outcome).1]
      · simp only [next, step, outcome]
        obtain ⟨-, -, -, -, geometryKept, -⟩ := BlockAllocator.allocateAndWrite_eq_some outcome
        exact geometryKept
  | deallocate handle =>
      cases outcome : use.allocator.deallocate handle with
      | error panic => simp only [next, step, outcome]
      | ok allocator =>
          simp only [next, step, outcome]
          obtain ⟨pool, freed, rfl⟩ := BlockAllocator.deallocate_eq_ok outcome
          obtain ⟨-, -, -, geometryKept, -⟩ := MemoryPool.deallocate_eq_ok freed
          exact geometryKept

/-- No run of calls changes the geometry. -/
theorem geometry_run (platform : Platform) (use : AllocatorUse) (calls : List AllocatorCall) :
    (run (next (step platform)) use calls).allocator.pool.geometry =
      use.allocator.pool.geometry :=
  @run_invariant _ _ (next (step platform))
    (fun state => state.allocator.pool.geometry = use.allocator.pool.geometry)
    (fun state call same => (geometry_next platform state call).trans same) use rfl calls

/-! ## What a live block keeps -/

/-- A live handle whose block holds the data it was returned for. -/
structure Keeps (platform : Platform) (geometry : Geometry) (handle : BlockHandle)
    (data : List UInt8) (use : AllocatorUse) : Prop where
  partitioned : PoolUse.Partitioned geometry use.poolUse
  live : handle ∈ use.live
  fits : BlockHeader.size + data.length ≤ geometry.blockSize
  holds : ∃ generation, BlockAllocator.Holds platform geometry use.allocator.pool.region
    handle.blockIndex.toNat data generation

variable {handle : BlockHandle} {data : List UInt8}

theorem keeps_of_written (partitioned : PoolUse.Partitioned geometry use.poolUse)
    (indexable : geometry.totalBlocks ≤ 2 ^ 32) {allocator : BlockAllocator}
    {location : BlockLocation}
    (written : use.allocator.allocateAndWrite platform data =
      (allocator, .ok (some (location, handle)))) :
    Keeps platform geometry handle data ⟨allocator, handle :: use.live⟩ := by
  obtain ⟨block, top, fits, -, -, -, -, regionEq⟩ :=
    BlockAllocator.allocateAndWrite_eq_some written
  have geometryEq : use.allocator.pool.geometry = geometry := partitioned.geometryEq
  have named := BlockAllocator.allocateAndWrite_handle written top
  rw [geometryEq] at fits regionEq named
  have inside : block < geometry.totalBlocks := by
    rw [← geometryEq]
    exact use.allocator.pool.freeBelow block (by simp [top])
  refine ⟨partitioned_of_written partitioned indexable written, List.mem_cons_self, fits,
    use.allocator.generation, ?_⟩
  rw [named, PoolUse.handleFor_blockIndex indexable inside]
  show BlockAllocator.Holds platform geometry allocator.pool.region block data _
  rw [regionEq]
  exact BlockAllocator.holds_written platform geometry _ block data _

/-- A write goes to a free block, which is not the one of a live handle. -/
theorem Keeps.write (keeps : Keeps platform geometry handle data use)
    (indexable : geometry.totalBlocks ≤ 2 ^ 32) {allocator : BlockAllocator}
    {other : List UInt8} {location : BlockLocation} {otherHandle : BlockHandle}
    (written : use.allocator.allocateAndWrite platform other =
      (allocator, .ok (some (location, otherHandle)))) :
    Keeps platform geometry handle data ⟨allocator, otherHandle :: use.live⟩ := by
  obtain ⟨block, top, fits, -, -, -, -, regionEq⟩ :=
    BlockAllocator.allocateAndWrite_eq_some written
  have geometryEq : use.allocator.pool.geometry = geometry := keeps.partitioned.geometryEq
  obtain ⟨generation, holds⟩ := keeps.holds
  rw [geometryEq] at fits regionEq
  have different : handle.blockIndex.toNat ≠ block := by
    intro same
    apply keeps.partitioned.notMem_freeList keeps.live
    show handle.blockIndex.toNat ∈ use.allocator.pool.freeList
    simp [top, same]
  refine ⟨partitioned_of_written keeps.partitioned indexable written,
    List.mem_cons_of_mem _ keeps.live, keeps.fits, generation, ?_⟩
  show BlockAllocator.Holds platform geometry allocator.pool.region _ data generation
  rw [regionEq]
  exact holds.written_other fits keeps.fits different

theorem Keeps.step (keeps : Keeps platform geometry handle data use)
    (indexable : geometry.totalBlocks ≤ 2 ^ 32) {call : AllocatorCall}
    (givesBack : use.GivesBackLive call) (otherHandle : call ≠ .deallocate handle) :
    Keeps platform geometry handle data (next (AllocatorUse.step platform) use call) := by
  cases call with
  | allocateAndWrite other =>
      have geometryEq : use.allocator.pool.geometry = geometry := keeps.partitioned.geometryEq
      have headerFits : BlockHeader.size ≤ use.allocator.pool.geometry.blockSize := by
        have fits := keeps.fits
        rw [geometryEq]
        omega
      rcases step_allocateAndWrite platform use headerFits other with
        unchanged | ⟨allocator, location, written, outcome, stepped⟩
      · rw [next, unchanged]
        exact keeps
      · rw [next, stepped]
        exact keeps.write indexable outcome
  | deallocate freed =>
      have different : handle ≠ freed := fun same => otherHandle (congrArg _ same.symm)
      obtain ⟨pool, deallocated, stepped⟩ := @step_deallocate platform _ _ keeps.partitioned _
        givesBack
      obtain ⟨-, -, -, -, regionKept⟩ := MemoryPool.deallocate_eq_ok deallocated
      rw [next, stepped]
      refine ⟨keeps.partitioned.deallocate givesBack deallocated,
        (List.mem_erase_of_ne different).mpr keeps.live, keeps.fits, ?_⟩
      show ∃ generation, BlockAllocator.Holds platform geometry pool.region _ data generation
      rw [regionKept]
      exact keeps.holds

theorem Keeps.readVerified (keeps : Keeps platform geometry handle data use)
    (small : geometry.blockSize < 2 ^ 32) :
    use.allocator.readVerified platform handle = .ok (some data) := by
  obtain ⟨generation, holds⟩ := keeps.holds
  have geometryEq : use.allocator.pool.geometry = geometry := keeps.partitioned.geometryEq
  have named := keeps.partitioned.named handle keeps.live
  have fits := keeps.fits
  rw [← geometryEq] at holds fits named small
  have samePool := congrArg BlockHandle.poolId named
  have offsetEq := congrArg BlockHandle.offset named
  exact BlockAllocator.readVerified_of_holds holds fits samePool offsetEq (by omega)

end Steps

end AllocatorUse

/-- A written block stays readable until it is freed: whatever was allocated, written
and freed before, and whatever is written or freed through other handles since,
`read_verified` returns the data that was written for the handle. -/
theorem written_block_stays_readable {platform : Platform} {geometry : Geometry}
    (headerFits : BlockHeader.size ≤ geometry.blockSize) (small : geometry.blockSize < 2 ^ 32)
    (indexable : geometry.totalBlocks ≤ 2 ^ 32) {region : Region} {nodeId : UInt32}
    {earlier later : List AllocatorCall} {after : AllocatorUse} {data : List UInt8}
    {location : BlockLocation} {handle : BlockHandle}
    (givesBack : Allows (next (AllocatorUse.step platform)) AllocatorUse.GivesBackLive
      (AllocatorUse.start geometry region nodeId) earlier)
    (returned : (run (next (AllocatorUse.step platform))
        (AllocatorUse.start geometry region nodeId) earlier).step platform
          (.allocateAndWrite data) = (after, .written (.ok (some (location, handle)))))
    (sparesHandle : Allows (next (AllocatorUse.step platform))
      (fun use call => use.GivesBackLive call ∧ call ≠ .deallocate handle) after later) :
    (run (next (AllocatorUse.step platform)) after later).allocator.readVerified platform handle =
      .ok (some data) := by
  have partitioned := @run_invariant_of_allows _ _ _ _
    (fun use => PoolUse.Partitioned geometry use.poolUse)
    (fun use call => AllocatorUse.step_partitioned platform headerFits indexable call)
    _ (AllocatorUse.start_partitioned geometry region nodeId) _ givesBack
  have keeps : AllocatorUse.Keeps platform geometry handle data after := by
    rcases AllocatorUse.step_allocateAndWrite platform _ (partitioned.geometryEq ▸ headerFits)
      data with refused | ⟨allocator, location', handle', written, stepped⟩
    · rw [returned] at refused
      cases refused
    · rw [returned] at stepped
      cases stepped
      exact AllocatorUse.keeps_of_written partitioned indexable written
  have keepsAtEnd := @run_invariant_of_allows _ _ _ _
    (AllocatorUse.Keeps platform geometry handle data)
    (fun use call allowed keeps => keeps.step indexable allowed.1 allowed.2) _ keeps _ sparesHandle
  exact keepsAtEnd.readVerified small

/-- The block first held seven bytes, was freed and taken again for one; the other
block is then written and freed. -/
theorem written_block_stays_readable_reused :
    let start := AllocatorUse.start Geometry.twoBlocks (fun _ => 255) 0
    let handle := MemoryPool.handleFor Geometry.twoBlocks 1
    let after := run (next (AllocatorUse.step .release)) start
      [.allocateAndWrite [1, 2, 3, 4, 5, 6, 7], .deallocate handle, .allocateAndWrite [8]]
    let atEnd := run (next (AllocatorUse.step .release)) after
      [.allocateAndWrite [9, 9], .deallocate (MemoryPool.handleFor Geometry.twoBlocks 0)]
    atEnd.allocator.readVerified .release handle = .ok (some [8]) := by
  intro start handle after atEnd
  let earlier : List AllocatorCall :=
    [.allocateAndWrite [1, 2, 3, 4, 5, 6, 7], .deallocate handle]
  let before := run (next (AllocatorUse.step .release)) start earlier
  have givesBack : Allows (next (AllocatorUse.step .release)) AllocatorUse.GivesBackLive start
      earlier := by decide +kernel
  have returned : before.step .release (.allocateAndWrite [8]) =
      (after, .written (.ok (some (before.allocator.locationFor 1, handle)))) := rfl
  have spares : Allows (next (AllocatorUse.step .release))
      (fun use call => use.GivesBackLive call ∧ call ≠ .deallocate handle) after
      [.allocateAndWrite [9, 9], .deallocate (MemoryPool.handleFor Geometry.twoBlocks 0)] := by
    decide +kernel
  exact written_block_stays_readable (by decide) (by decide) (by decide) givesBack returned spares

end CmxRdma.BlockStore
