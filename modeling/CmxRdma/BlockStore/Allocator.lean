import CmxRdma.BlockStore.Block
import CmxRdma.Memory.Pool

/-!
Contract: `cmx-block-store/src/allocator.rs`, the block allocator.

Owns: `allocate_and_write`, `read_verified`, `deallocate` and `stats`; the
statement that a block holds what was written for some data and generation;
that a write establishes it, that writes to other blocks keep it, and that
`read_verified` recovers the data from it.

Does not own: who may name a block; the allocator trusts its handles.
-/

namespace CmxRdma.BlockStore

open CmxRdma.Lib.ByteRegion
open CmxRdma.Memory

structure BlockAllocator where
  pool : MemoryPool
  nodeId : UInt32
  generation : UInt64

namespace BlockAllocator

/-- `BlockAllocator::new`: the first generation is 1. -/
def new (pool : MemoryPool) (nodeId : UInt32) : BlockAllocator where
  pool := pool
  nodeId := nodeId
  generation := 1

/-- The location record of a block written at the current generation. -/
def locationFor (allocator : BlockAllocator) (block : Nat) : BlockLocation where
  nodeId := allocator.nodeId
  blockIndex := UInt32.ofNat block
  offset := UInt64.ofNat (block * allocator.pool.geometry.blockSize)
  blockSize := UInt64.ofNat allocator.pool.geometry.blockSize
  generation := allocator.generation

/-- `allocate_and_write`. The popped handle belongs to this pool, so the pool
assertion of `get_slice_mut` holds; the first slice taken from the block is
`[..SIZE]`, which is where a block smaller than a header panics. -/
def allocateAndWrite (platform : Platform) (allocator : BlockAllocator) (data : List UInt8) :
    BlockAllocator × Except Panic (Option (BlockLocation × BlockHandle)) :=
  match usizeSub platform.overflowChecks allocator.pool.geometry.blockSize BlockHeader.size with
  | .error panic => (allocator, .error panic)
  | .ok maxData =>
      if data.length > maxData then (allocator, .ok none)
      else
        match allocator.pool.allocate with
        | none => (allocator, .ok none)
        | some (handle, pool) =>
            if pool.geometry.blockSize < BlockHeader.size then
              ({ allocator with pool := pool, generation := allocator.generation + 1 },
                .error .indexOutOfBounds)
            else
              let header := BlockHeader.new platform data allocator.generation
              let withHeader := pool.store handle.offset (header.writeTo platform)
              let written := withHeader.store (handle.offset + BlockHeader.size) data
              ({ allocator with pool := written, generation := allocator.generation + 1 },
                .ok (some ({
                  nodeId := allocator.nodeId
                  blockIndex := handle.blockIndex
                  offset := UInt64.ofNat handle.offset
                  blockSize := UInt64.ofNat pool.geometry.blockSize
                  generation := allocator.generation }, handle)))

/-- `read_verified`: header, length and checksum of one block. -/
def readVerified (platform : Platform) (allocator : BlockAllocator) (handle : BlockHandle) :
    Except Panic (Option (List UInt8)) := do
  let slice ← allocator.pool.getSlice handle
  match BlockHeader.readFrom slice with
  | none => return none
  | some header =>
      let dataEnd := BlockHeader.size + header.dataSize.toNat
      if dataEnd > slice.length then return none
      else
        let data := (slice.take dataEnd).drop BlockHeader.size
        if header.verify platform data then return some data else return none

def deallocate (allocator : BlockAllocator) (handle : BlockHandle) :
    Except Panic BlockAllocator := do
  let pool ← allocator.pool.deallocate handle
  return { allocator with pool := pool }

def stats (allocator : BlockAllocator) : PoolStats :=
  allocator.pool.stats

/-! ## What one call does -/

private theorem usizeSub_eq_ok {checks : Bool} {left right value : Nat}
    (computed : usizeSub checks left right = .ok value) (fits : right ≤ left) :
    value = left - right := by
  simp only [usizeSub, fits, ↓reduceIte, Except.ok.injEq] at computed
  exact computed.symm

/-- What a write that returned a location did: it allocated a block and copied header
and data through its handle. -/
theorem exists_allocate_of_written {platform : Platform} {allocator allocator' : BlockAllocator}
    {data : List UInt8} {location : BlockLocation} {handle : BlockHandle}
    (written : allocateAndWrite platform allocator data =
      (allocator', .ok (some (location, handle)))) :
    ∃ pool, allocator.pool.allocate = some (handle, pool) ∧
      BlockHeader.size + data.length ≤ pool.geometry.blockSize ∧
      location = {
        nodeId := allocator.nodeId
        blockIndex := handle.blockIndex
        offset := UInt64.ofNat handle.offset
        blockSize := UInt64.ofNat pool.geometry.blockSize
        generation := allocator.generation } ∧
      allocator' = {
        pool := (pool.store handle.offset
          ((BlockHeader.new platform data allocator.generation).writeTo platform)).store
            (handle.offset + BlockHeader.size) data
        nodeId := allocator.nodeId
        generation := allocator.generation + 1 } := by
  unfold allocateAndWrite at written
  split at written
  · simp at written
  · rename_i maxData computed
    split at written
    · simp at written
    · rename_i notTooLarge
      split at written
      · simp at written
      · rename_i popped pool allocated
        obtain ⟨-, -, -, geometryEq, -⟩ := MemoryPool.allocate_eq_some allocated
        split at written
        · simp at written
        · rename_i headerFits
          simp only [Prod.mk.injEq, Except.ok.injEq, Option.some.injEq] at written
          obtain ⟨rfl, rfl, rfl⟩ := written
          have capacity := usizeSub_eq_ok computed (geometryEq ▸ not_lt.mp headerFits)
          rw [← geometryEq] at capacity
          exact ⟨pool, allocated, by omega, rfl, rfl⟩

/-- A write that returns a location popped the top free block, wrote header and
data into it, and drew one generation. -/
theorem allocateAndWrite_eq_some {platform : Platform} {allocator allocator' : BlockAllocator}
    {data : List UInt8} {location : BlockLocation} {handle : BlockHandle}
    (written : allocateAndWrite platform allocator data =
      (allocator', .ok (some (location, handle)))) :
    ∃ block, allocator.pool.freeList = allocator'.pool.freeList ++ [block] ∧
      BlockHeader.size + data.length ≤ allocator.pool.geometry.blockSize ∧
      location = allocator.locationFor block ∧
      allocator'.pool.geometry = allocator.pool.geometry ∧
      allocator'.nodeId = allocator.nodeId ∧
      allocator'.generation = allocator.generation + 1 ∧
      allocator'.pool.region =
        writeBytes
          (writeBytes allocator.pool.region (block * allocator.pool.geometry.blockSize)
            ((BlockHeader.new platform data allocator.generation).writeTo platform))
          (block * allocator.pool.geometry.blockSize + BlockHeader.size) data := by
  obtain ⟨pool, allocated, fits, rfl, rfl⟩ := exists_allocate_of_written written
  obtain ⟨block, freeEq, rfl, geometryEq, regionEq⟩ := MemoryPool.allocate_eq_some allocated
  refine ⟨block, freeEq, geometryEq ▸ fits, ?_, geometryEq, rfl, rfl, ?_⟩
  · simp [locationFor, MemoryPool.handleFor, geometryEq]
  · simp [MemoryPool.handleFor, regionEq]

/-- The handle a write returns is that of the block it popped. -/
theorem allocateAndWrite_handle {platform : Platform} {allocator allocator' : BlockAllocator}
    {data : List UInt8} {location : BlockLocation} {handle : BlockHandle} {block : Nat}
    (written : allocateAndWrite platform allocator data =
      (allocator', .ok (some (location, handle))))
    (top : allocator.pool.freeList = allocator'.pool.freeList ++ [block]) :
    handle = MemoryPool.handleFor allocator.pool.geometry block := by
  obtain ⟨pool, allocated, -, -, rfl⟩ := exists_allocate_of_written written
  obtain ⟨popped, freeEq, rfl, -⟩ := MemoryPool.allocate_eq_some allocated
  obtain rfl : popped = block := by
    have sameTop := congrArg List.getLast? (freeEq.symm.trans top)
    simpa using sameTop
  rfl

/-- A refused write changes nothing, and is refused because the data does not
fit or no block is free. -/
theorem allocateAndWrite_eq_none {platform : Platform} {allocator allocator' : BlockAllocator}
    {data : List UInt8}
    (refused : allocateAndWrite platform allocator data = (allocator', .ok none)) :
    allocator' = allocator ∧
      (allocator.pool.geometry.blockSize < BlockHeader.size + data.length ∨
        allocator.pool.freeList = []) := by
  unfold allocateAndWrite at refused
  split at refused
  · simp at refused
  · rename_i maxData computed
    split at refused
    · rename_i tooLarge
      simp only [Prod.mk.injEq, and_true] at refused
      refine ⟨refused.symm, Or.inl ?_⟩
      by_cases headerFits : BlockHeader.size ≤ allocator.pool.geometry.blockSize
      · have capacity := usizeSub_eq_ok computed headerFits
        omega
      · omega
    · split at refused
      · rename_i exhausted
        simp only [Prod.mk.injEq, and_true] at refused
        exact ⟨refused.symm, Or.inr ((MemoryPool.allocate_eq_none_iff _).mp exhausted)⟩
      · split at refused <;> simp at refused

/-- A write only panics on a pool whose blocks cannot hold a header: with
overflow checks before any effect, without them after a block was popped. -/
theorem allocateAndWrite_eq_error {platform : Platform} {allocator allocator' : BlockAllocator}
    {data : List UInt8} {panic : Panic}
    (panicked : allocateAndWrite platform allocator data = (allocator', .error panic)) :
    allocator.pool.geometry.blockSize < BlockHeader.size ∧
      (platform.overflowChecks = true ∧ allocator' = allocator ∨
        platform.overflowChecks = false ∧
          data.length ≤ allocator.pool.geometry.blockSize + usizeBound - BlockHeader.size ∧
          ∃ block, allocator.pool.freeList = allocator'.pool.freeList ++ [block] ∧
            allocator'.pool.geometry = allocator.pool.geometry ∧
            allocator'.nodeId = allocator.nodeId ∧
            allocator'.generation = allocator.generation + 1 ∧
            allocator'.pool.region = allocator.pool.region) := by
  unfold allocateAndWrite at panicked
  split at panicked
  · rename_i subPanic computed
    simp only [Prod.mk.injEq] at panicked
    unfold usizeSub at computed
    split at computed
    · cases computed
    · rename_i tooSmall
      split at computed
      · rename_i checks
        exact ⟨not_le.mp tooSmall, Or.inl ⟨checks, panicked.1.symm⟩⟩
      · cases computed
  · rename_i maxData computed
    split at panicked
    · simp at panicked
    · rename_i notTooLarge
      split at panicked
      · simp at panicked
      · rename_i popped pool allocated
        obtain ⟨block, freeEq, -, geometryEq, regionEq⟩ := MemoryPool.allocate_eq_some allocated
        split at panicked
        · rename_i tooSmall
          rw [geometryEq] at tooSmall
          simp only [Prod.mk.injEq] at panicked
          obtain ⟨rfl, -⟩ := panicked
          simp only [usizeSub, not_le.mpr tooSmall, ↓reduceIte] at computed
          cases checks : platform.overflowChecks with
          | false =>
              simp only [checks, Bool.false_eq_true, ↓reduceIte, Except.ok.injEq] at computed
              exact ⟨tooSmall, Or.inr ⟨rfl, by omega, block, freeEq, geometryEq, rfl, rfl, regionEq⟩⟩
          | true => simp [checks] at computed
        · simp at panicked

/-- Without overflow checks, a block that cannot hold a header is taken and lost
to a panic. -/
theorem exists_allocateAndWrite_cramped {platform : Platform} {allocator : BlockAllocator}
    {data : List UInt8} (cramped : allocator.pool.geometry.blockSize < BlockHeader.size)
    (unchecked : platform.overflowChecks = false)
    (fits : data.length ≤ allocator.pool.geometry.blockSize + usizeBound - BlockHeader.size)
    (available : allocator.pool.freeList ≠ []) :
    ∃ allocator' panic block,
      allocateAndWrite platform allocator data = (allocator', .error panic) ∧
        allocator.pool.freeList = allocator'.pool.freeList ++ [block] := by
  rcases popping : allocator.pool.allocate with - | ⟨handle, pool⟩
  · exact absurd ((MemoryPool.allocate_eq_none_iff _).mp popping) available
  · obtain ⟨block, freeEq, -, geometryEq, -⟩ := MemoryPool.allocate_eq_some popping
    refine ⟨{ allocator with pool := pool, generation := allocator.generation + 1 },
      .indexOutOfBounds, block, ?_, freeEq⟩
    have wrapped : usizeSub platform.overflowChecks allocator.pool.geometry.blockSize
        BlockHeader.size =
          .ok (allocator.pool.geometry.blockSize + usizeBound - BlockHeader.size) := by
      simp [usizeSub, not_le.mpr cramped, unchecked]
    simp only [allocateAndWrite, wrapped, not_lt.mpr fits, ↓reduceIte, popping, geometryEq, cramped]

/-- Data that fits is written whenever a block is free. -/
theorem exists_allocateAndWrite_of_fits (platform : Platform) {allocator : BlockAllocator}
    {data : List UInt8}
    (fits : BlockHeader.size + data.length ≤ allocator.pool.geometry.blockSize)
    (available : allocator.pool.freeList ≠ []) :
    ∃ allocator' location handle,
      allocateAndWrite platform allocator data = (allocator', .ok (some (location, handle))) := by
  rcases outcome : allocateAndWrite platform allocator data with ⟨allocator', result⟩
  cases result with
  | error panic =>
      have tooSmall := (allocateAndWrite_eq_error outcome).1
      omega
  | ok written =>
      cases written with
      | none =>
          rcases (allocateAndWrite_eq_none outcome).2 with tooLarge | exhausted
          · omega
          · exact absurd exhausted available
      | some pair => exact ⟨allocator', pair.1, pair.2, rfl⟩

theorem deallocate_eq_ok {allocator allocator' : BlockAllocator} {handle : BlockHandle}
    (freed : allocator.deallocate handle = .ok allocator') :
    ∃ pool, allocator.pool.deallocate handle = .ok pool ∧
      allocator' = { allocator with pool := pool } := by
  unfold deallocate at freed
  cases result : allocator.pool.deallocate handle with
  | error panic => simp [result, bind, Except.bind] at freed
  | ok pool =>
      simp only [result, bind, Except.bind, pure, Except.pure, Except.ok.injEq] at freed
      exact ⟨pool, rfl, freed.symm⟩

theorem deallocate_of_other_pool {allocator : BlockAllocator} {handle : BlockHandle}
    (otherPool : handle.poolId ≠ allocator.pool.geometry.poolId) :
    allocator.deallocate handle = .error .assertionFailed := by
  simp [deallocate, MemoryPool.deallocate_of_other_pool otherPool, bind, Except.bind]

theorem exists_deallocate {allocator : BlockAllocator} {handle : BlockHandle}
    (samePool : handle.poolId = allocator.pool.geometry.poolId)
    (inRange : handle.blockIndex.toNat < allocator.pool.geometry.totalBlocks) :
    ∃ pool, allocator.pool.deallocate handle = .ok pool ∧
      allocator.deallocate handle = .ok { allocator with pool := pool } := by
  obtain ⟨pool, freed⟩ := MemoryPool.exists_deallocate samePool inRange
  refine ⟨pool, freed, ?_⟩
  simp [deallocate, freed, bind, Except.bind, pure, Except.pure]

/-! ## What a block holds -/

/-- Block `block` of the region starts with the header written for `data` at
`generation`, followed by `data`. -/
def Holds (platform : Platform) (geometry : Geometry) (region : Region) (block : Nat)
    (data : List UInt8) (generation : UInt64) : Prop :=
  readBytes region (block * geometry.blockSize) (BlockHeader.size + data.length) =
    (BlockHeader.new platform data generation).writeTo platform ++ data

/-- The header currently in a block. -/
def headerIn (geometry : Geometry) (region : Region) (block : Nat) : Option BlockHeader :=
  BlockHeader.readFrom (readBytes region (block * geometry.blockSize) geometry.blockSize)

private theorem block_range_disjoint (blockSize : Nat) {block other : Nat}
    (different : other ≠ block) :
    other * blockSize + blockSize ≤ block * blockSize ∨
      block * blockSize + blockSize ≤ other * blockSize := by
  rcases Nat.lt_or_gt_of_ne different with below | above
  · left
    calc other * blockSize + blockSize = (other + 1) * blockSize := (Nat.succ_mul _ _).symm
      _ ≤ block * blockSize := Nat.mul_le_mul_right _ below
  · right
    calc block * blockSize + blockSize = (block + 1) * blockSize := (Nat.succ_mul _ _).symm
      _ ≤ other * blockSize := Nat.mul_le_mul_right _ above

/-- Frame: writing header and data into one block leaves every other block's
bytes alone. -/
theorem readBytes_written_other (platform : Platform) {geometry : Geometry} (region : Region)
    {block other count : Nat} {data : List UInt8} (generation : UInt64)
    (fits : BlockHeader.size + data.length ≤ geometry.blockSize)
    (withinOther : count ≤ geometry.blockSize) (different : other ≠ block) :
    readBytes
        (writeBytes
          (writeBytes region (block * geometry.blockSize)
            ((BlockHeader.new platform data generation).writeTo platform))
          (block * geometry.blockSize + BlockHeader.size) data)
        (other * geometry.blockSize) count =
      readBytes region (other * geometry.blockSize) count := by
  have apart := block_range_disjoint geometry.blockSize different
  rw [readBytes_writeBytes_disjoint, readBytes_writeBytes_disjoint]
  · simp only [BlockHeader.writeTo_length]
    omega
  · omega

/-- A block that was not written keeps what it holds. -/
theorem Holds.written_other {platform : Platform} {geometry : Geometry} {region : Region}
    {block other : Nat} {data held : List UInt8} {generation heldGeneration : UInt64}
    (holds : Holds platform geometry region other held heldGeneration)
    (fits : BlockHeader.size + data.length ≤ geometry.blockSize)
    (heldFits : BlockHeader.size + held.length ≤ geometry.blockSize) (different : other ≠ block) :
    Holds platform geometry
      (writeBytes
        (writeBytes region (block * geometry.blockSize)
          ((BlockHeader.new platform data generation).writeTo platform))
        (block * geometry.blockSize + BlockHeader.size) data)
      other held heldGeneration := by
  unfold Holds
  rw [readBytes_written_other platform region generation fits heldFits different]
  exact holds

/-- A write establishes `Holds` for its block. -/
theorem holds_written (platform : Platform) (geometry : Geometry) (region : Region)
    (block : Nat) (data : List UInt8) (generation : UInt64) :
    Holds platform geometry
      (writeBytes
        (writeBytes region (block * geometry.blockSize)
          ((BlockHeader.new platform data generation).writeTo platform))
        (block * geometry.blockSize + BlockHeader.size) data)
      block data generation := by
  unfold Holds
  rw [readBytes_add, readBytes_writeBytes_self]
  congr 1
  rw [readBytes_writeBytes_disjoint _ (Or.inl le_rfl)]
  have wholeHeader := readBytes_writeBytes_self region (block * geometry.blockSize)
    ((BlockHeader.new platform data generation).writeTo platform)
  rwa [BlockHeader.writeTo_length] at wholeHeader

/-- The block begins with the header. -/
theorem Holds.header_eq {platform : Platform} {geometry : Geometry} {region : Region}
    {block : Nat} {data : List UInt8} {generation : UInt64}
    (holds : Holds platform geometry region block data generation) :
    readBytes region (block * geometry.blockSize) BlockHeader.size =
      (BlockHeader.new platform data generation).writeTo platform := by
  unfold Holds at holds
  rw [readBytes_add] at holds
  exact (List.append_inj holds (by simp)).1

/-- The data stands behind the header. -/
theorem Holds.contents_eq {platform : Platform} {geometry : Geometry} {region : Region}
    {block : Nat} {data : List UInt8} {generation : UInt64}
    (holds : Holds platform geometry region block data generation) :
    readBytes region (block * geometry.blockSize + BlockHeader.size) data.length = data := by
  unfold Holds at holds
  rw [readBytes_add] at holds
  exact (List.append_inj holds (by simp)).2

/-- A block that holds a write shows that write's header. -/
theorem headerIn_of_holds {platform : Platform} {geometry : Geometry} {region : Region}
    {block : Nat} {data : List UInt8} {generation : UInt64}
    (holds : Holds platform geometry region block data generation)
    (fits : BlockHeader.size + data.length ≤ geometry.blockSize) :
    headerIn geometry region block = some (BlockHeader.new platform data generation) := by
  unfold headerIn
  have split : geometry.blockSize =
      BlockHeader.size + data.length +
        (geometry.blockSize - (BlockHeader.size + data.length)) := by
    omega
  rw [split, readBytes_add, ← split, holds, List.append_assoc, BlockHeader.readFrom_writeTo]

/-- `read_verified` checks the bytes behind the header, as many as the header says. -/
theorem readVerified_of_headerIn {platform : Platform} {allocator : BlockAllocator}
    {handle : BlockHandle} {block : Nat} {header : BlockHeader}
    (read : headerIn allocator.pool.geometry allocator.pool.region block = some header)
    (fits : BlockHeader.size + header.dataSize.toNat ≤ allocator.pool.geometry.blockSize)
    (samePool : handle.poolId = allocator.pool.geometry.poolId)
    (offsetEq : handle.offset = block * allocator.pool.geometry.blockSize) :
    let contents := readBytes allocator.pool.region
      (block * allocator.pool.geometry.blockSize + BlockHeader.size) header.dataSize.toNat
    readVerified platform allocator handle =
      .ok (if header.verify platform contents then some contents else none) := by
  intro contents
  have slice : allocator.pool.getSlice handle =
      .ok (readBytes allocator.pool.region (block * allocator.pool.geometry.blockSize)
        allocator.pool.geometry.blockSize) := by
    simp [MemoryPool.getSlice, MemoryPool.getPtr, samePool, offsetEq, bind, Except.bind, pure,
      Except.pure]
  have behind :
      ((readBytes allocator.pool.region (block * allocator.pool.geometry.blockSize)
          allocator.pool.geometry.blockSize).take
            (BlockHeader.size + header.dataSize.toNat)).drop BlockHeader.size = contents := by
    have split : allocator.pool.geometry.blockSize =
        BlockHeader.size + header.dataSize.toNat +
          (allocator.pool.geometry.blockSize - (BlockHeader.size + header.dataSize.toNat)) := by
      omega
    rw [split, readBytes_add, ← split, List.take_left' (by simp), readBytes_add,
      List.drop_left' (by simp)]
  unfold headerIn at read
  unfold readVerified
  simp only [slice, bind, Except.bind, read, readBytes_length, not_lt.mpr fits, ↓reduceIte, behind]
  split <;> rfl

/-- What is read back has a length that fits the `u32` of a header. -/
theorem length_lt_of_readVerified {platform : Platform} {allocator : BlockAllocator}
    {handle : BlockHandle} {data : List UInt8}
    (read : readVerified platform allocator handle = .ok (some data)) : data.length < 2 ^ 32 := by
  simp only [readVerified, bind, Except.bind, pure, Except.pure] at read
  cases sliced : allocator.pool.getSlice handle with
  | error panic =>
      simp only [sliced] at read
      cases read
  | ok slice =>
      simp only [sliced] at read
      cases headed : BlockHeader.readFrom slice with
      | none =>
          simp only [headed] at read
          cases read
      | some header =>
          simp only [headed] at read
          have small := header.dataSize.toNat_lt
          split_ifs at read <;> cases read
          rw [List.length_drop, List.length_take]
          omega

/-- `read_verified` recovers the data a block holds, as long as the length was
not narrowed by the header's `u32`. -/
theorem readVerified_of_holds {platform : Platform} {allocator : BlockAllocator}
    {handle : BlockHandle} {block : Nat} {data : List UInt8} {generation : UInt64}
    (holds : Holds platform allocator.pool.geometry allocator.pool.region block data generation)
    (fits : BlockHeader.size + data.length ≤ allocator.pool.geometry.blockSize)
    (samePool : handle.poolId = allocator.pool.geometry.poolId)
    (offsetEq : handle.offset = block * allocator.pool.geometry.blockSize)
    (lengthLt : data.length < 2 ^ 32) :
    readVerified platform allocator handle = .ok (some data) := by
  have dataSize : (BlockHeader.new platform data generation).dataSize.toNat = data.length := by
    simpa [BlockHeader.new] using lengthLt
  have checksum : (BlockHeader.new platform data generation).verify platform data = true := by
    simp [BlockHeader.new, BlockHeader.verify]
  have verified := @readVerified_of_headerIn platform _ _ _ _ (headerIn_of_holds holds fits)
    (by rwa [dataSize]) samePool offsetEq
  simp only [dataSize, holds.contents_eq, if_pos checksum] at verified
  exact verified

end BlockAllocator

end CmxRdma.BlockStore
