import CmxRdma.Lib.ByteRegion
import CmxRdma.Platform

/-!
Contract: `cmx-memory/src/pool.rs`, the pinned slab pool.

Owns: the geometry a pool is built with, the LIFO free list, block handles,
the mapped bytes, and the statistics snapshot. The free list is a stack whose
top is the end of the list, as in the source's `Vec`. A pool carries the bound
that `deallocate` asserts: no free index lies outside the pool.

Does not own: `mmap`, `mlock` and `munmap` (a created pool is a zeroed region
of `total_size` bytes), the process-wide `NEXT_POOL_ID` counter (the id is an
argument), or the mutex (every operation is one atomic step).
-/

namespace CmxRdma.Memory

open CmxRdma.Lib.ByteRegion

inductive PoolError where
  | invalidSize (totalSize blockSize : Nat)
  | zeroBlockSize
deriving DecidableEq, Repr

/-- The fields of a `MemoryPool` that never change, with what `new` checked. -/
structure Geometry where
  poolId : UInt32
  totalSize : Nat
  blockSize : Nat
  totalBlocks : Nat
  blockSizePos : 0 < blockSize
  sizeEq : totalSize = totalBlocks * blockSize
  blocksPos : 0 < totalBlocks
  sizeLt : totalSize < usizeBound

/-- Two blocks of 32 bytes, the pool of the concrete runs. -/
def Geometry.twoBlocks : Geometry where
  poolId := 0
  totalSize := 64
  blockSize := 32
  totalBlocks := 2
  blockSizePos := by decide
  sizeEq := by decide
  blocksPos := by decide
  sizeLt := by decide

structure BlockHandle where
  poolId : UInt32
  blockIndex : UInt32
  offset : Nat
  size : Nat
deriving DecidableEq, Repr

structure PoolStats where
  totalBlocks : Nat
  usedBlocks : Nat
  freeBlocks : Nat
  totalBytes : Nat
  usedBytes : Nat
deriving DecidableEq, Repr

structure MemoryPool where
  geometry : Geometry
  freeList : List Nat
  region : Region
  freeBelow : ∀ block ∈ freeList, block < geometry.totalBlocks

namespace MemoryPool

/-- A pool over a given geometry before anything was allocated: every block is
free, block `0` at the bottom of the stack, and the region is zeroed. -/
def fresh (geometry : Geometry) : MemoryPool where
  geometry := geometry
  freeList := List.range geometry.totalBlocks
  region := fun _ => 0
  freeBelow := fun _ member => List.mem_range.mp member

/-- `MemoryPool::new`, with the pool id the global counter hands out and the
two sizes as `usize` values. -/
def new (poolId : UInt32) (totalSize blockSize : UInt64) : Except PoolError MemoryPool :=
  if zeroBlock : blockSize.toNat = 0 then .error .zeroBlockSize
  else if invalid : totalSize.toNat = 0 ∨ ¬ blockSize.toNat ∣ totalSize.toNat then
    .error (.invalidSize totalSize.toNat blockSize.toNat)
  else
    have divides : blockSize.toNat ∣ totalSize.toNat := by
      by_contra notDivides
      exact invalid (Or.inr notDivides)
    .ok (fresh {
      poolId := poolId
      totalSize := totalSize.toNat
      blockSize := blockSize.toNat
      totalBlocks := totalSize.toNat / blockSize.toNat
      blockSizePos := Nat.pos_of_ne_zero zeroBlock
      sizeEq := (Nat.div_mul_cancel divides).symm
      blocksPos := Nat.div_pos
        (Nat.le_of_dvd (Nat.pos_of_ne_zero fun zero => invalid (Or.inl zero)) divides)
        (Nat.pos_of_ne_zero zeroBlock)
      sizeLt := totalSize.toNat_lt })

/-- The handle `allocate` builds for a popped index. -/
def handleFor (geometry : Geometry) (block : Nat) : BlockHandle where
  poolId := geometry.poolId
  blockIndex := UInt32.ofNat block
  offset := block * geometry.blockSize
  size := geometry.blockSize

/-- The pool after its free list was replaced by part of itself. -/
def withFreeList (pool : MemoryPool) (freeList : List Nat)
    (sublist : ∀ block ∈ freeList, block ∈ pool.freeList) : MemoryPool where
  geometry := pool.geometry
  freeList := freeList
  region := pool.region
  freeBelow := fun block member => pool.freeBelow block (sublist block member)

/-- `allocate`: pop the top of the free list. -/
def allocate (pool : MemoryPool) : Option (BlockHandle × MemoryPool) :=
  match pool.freeList.getLast? with
  | none => none
  | some block =>
      some (handleFor pool.geometry block,
        pool.withFreeList pool.freeList.dropLast fun _ member => List.dropLast_subset _ member)

/-- `deallocate`: both assertions, then push. Nothing checks for a double free. -/
def deallocate (pool : MemoryPool) (handle : BlockHandle) : Except Panic MemoryPool :=
  if handle.poolId ≠ pool.geometry.poolId then .error .assertionFailed
  else if inRange : handle.blockIndex.toNat < pool.geometry.totalBlocks then
    .ok {
      geometry := pool.geometry
      freeList := pool.freeList ++ [handle.blockIndex.toNat]
      region := pool.region
      freeBelow := by
        intro block member
        rcases List.mem_append.mp member with old | pushed
        · exact pool.freeBelow block old
        · rw [List.mem_singleton.mp pushed]
          exact inRange }
  else .error .assertionFailed

/-- `get_ptr`: the pool assertion, then the address of the block. -/
def getPtr (pool : MemoryPool) (handle : BlockHandle) : Except Panic Nat :=
  if handle.poolId ≠ pool.geometry.poolId then .error .assertionFailed
  else .ok handle.offset

/-- `get_slice`: `block_size` bytes from the handle's offset, whatever size the
handle records. -/
def getSlice (pool : MemoryPool) (handle : BlockHandle) : Except Panic (List UInt8) := do
  let pointer ← pool.getPtr handle
  return readBytes pool.region pointer pool.geometry.blockSize

/-- The pool after a copy through `get_slice_mut`. -/
def store (pool : MemoryPool) (address : Nat) (bytes : List UInt8) : MemoryPool :=
  { pool with region := writeBytes pool.region address bytes }

def stats (pool : MemoryPool) : PoolStats where
  totalBlocks := pool.geometry.totalBlocks
  usedBlocks := pool.geometry.totalBlocks - pool.freeList.length
  freeBlocks := pool.freeList.length
  totalBytes := pool.geometry.totalSize
  usedBytes := (pool.geometry.totalBlocks - pool.freeList.length) * pool.geometry.blockSize

@[simp] theorem store_region (pool : MemoryPool) (address : Nat) (bytes : List UInt8) :
    (pool.store address bytes).region = writeBytes pool.region address bytes := rfl

/-- The last block is on top of a fresh free list. -/
theorem freeList_fresh (geometry : Geometry) :
    (fresh geometry).freeList =
      List.range (geometry.totalBlocks - 1) ++ [geometry.totalBlocks - 1] := by
  have someBlock := geometry.blocksPos
  have count : geometry.totalBlocks = geometry.totalBlocks - 1 + 1 := by omega
  exact (congrArg List.range count).trans List.range_succ

theorem freeList_fresh_ne_nil (geometry : Geometry) : (fresh geometry).freeList ≠ [] := by
  rw [freeList_fresh]
  exact List.concat_ne_nil _ _

theorem top_of_freeList_fresh {geometry : Geometry} {rest : List Nat} {block : Nat}
    (top : (fresh geometry).freeList = rest ++ [block]) : block = geometry.totalBlocks - 1 := by
  have sameTop := congrArg List.getLast? (top.symm.trans (freeList_fresh geometry))
  simpa using sameTop

/-! ## What one call does -/

theorem allocate_eq_none_iff (pool : MemoryPool) :
    pool.allocate = none ↔ pool.freeList = [] := by
  unfold allocate
  cases top : pool.freeList.getLast? with
  | none => simpa using List.getLast?_eq_none_iff.mp top
  | some block =>
      simp only [reduceCtorEq, false_iff]
      intro empty
      simp [empty] at top

/-- A successful `allocate` pops the top block and names it. -/
theorem allocate_eq_some {pool pool' : MemoryPool} {handle : BlockHandle}
    (allocated : pool.allocate = some (handle, pool')) :
    ∃ block, pool.freeList = pool'.freeList ++ [block] ∧
      handle = handleFor pool.geometry block ∧
      pool'.geometry = pool.geometry ∧ pool'.region = pool.region := by
  unfold allocate at allocated
  cases top : pool.freeList.getLast? with
  | none => simp [top] at allocated
  | some block =>
      simp only [top, Option.some.injEq, Prod.mk.injEq] at allocated
      obtain ⟨rfl, rfl⟩ := allocated
      refine ⟨block, ?_, rfl, rfl, rfl⟩
      exact (List.dropLast_append_getLast? block top).symm

/-- A `deallocate` that returns pushes the handle's index and changes nothing
else. -/
theorem deallocate_eq_ok {pool pool' : MemoryPool} {handle : BlockHandle}
    (freed : pool.deallocate handle = .ok pool') :
    handle.poolId = pool.geometry.poolId ∧
      handle.blockIndex.toNat < pool.geometry.totalBlocks ∧
      pool'.freeList = pool.freeList ++ [handle.blockIndex.toNat] ∧
      pool'.geometry = pool.geometry ∧ pool'.region = pool.region := by
  unfold deallocate at freed
  split at freed
  · cases freed
  · rename_i samePool
    split at freed
    · rename_i inRange
      cases freed
      exact ⟨not_not.mp samePool, inRange, rfl, rfl, rfl⟩
    · cases freed

theorem deallocate_of_other_pool {pool : MemoryPool} {handle : BlockHandle}
    (otherPool : handle.poolId ≠ pool.geometry.poolId) :
    pool.deallocate handle = .error .assertionFailed := by
  simp only [deallocate, if_pos otherPool]

theorem exists_deallocate {pool : MemoryPool} {handle : BlockHandle}
    (samePool : handle.poolId = pool.geometry.poolId)
    (inRange : handle.blockIndex.toNat < pool.geometry.totalBlocks) :
    ∃ pool', pool.deallocate handle = .ok pool' := by
  unfold deallocate
  rw [if_neg (not_not.mpr samePool), dif_pos inRange]
  exact ⟨_, rfl⟩

end MemoryPool

end CmxRdma.Memory
