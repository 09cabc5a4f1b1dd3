import CmxRdma.Agent.Ownership

/-!
Contract: which requests can panic a handler.

Owns: the panics of whole requests and of the atomic steps of interleaved ones,
that no step of a request in flight panics, and that a whole request panics
exactly when it is a Store whose header claims more bytes than a buffer can be
reserved for.

Does not own: pools whose blocks cannot hold a header or whose id is not 0, see
`Config` and `Conservation`; the process running out of memory.
-/

namespace CmxRdma.Agent

open CmxRdma.BlockStore
open CmxRdma.Lib.Gather
open CmxRdma.Lib.Transition
open CmxRdma.Memory
open CmxRdma.Proto

/-! ## Panics -/

/-- Some operation on the slab of the recency list indexes out of range. -/
def LruPanics (policy : LruPolicy) : Prop :=
  (∃ key panic, policy.inner.touch key = .error panic) ∨
    (∃ key panic, policy.inner.remove key = .error panic) ∨
    ∃ panic, policy.inner.evictLru = .error panic

/-- `read_verified` panics on a block of the entry. -/
def ReadPanics (platform : Platform) (allocator : BlockAllocator) (entry : IndexEntry) : Prop :=
  ∃ location ∈ entry.blocks, ∃ panic,
    allocator.readVerified platform (CacheService.localHandle location) = .error panic

/-- The requests of the service. -/
inductive Rpc where
  | cache (request : Request)
  | stats
  | health

/-- What panics in the handler of a request: the recency slab, the product of the pool
statistics, a Store or Delete, or the task of a Get. -/
def Rpc.Panics (platform : Platform) (service : CacheService) : Rpc → Prop
  | .cache (.lookup _) => LruPanics service.index.lru
  | .cache (.batchLookup _) => LruPanics service.index.lru
  | .cache (.store now stream) =>
      LruPanics service.index.lru ∨ usizeBound ≤ service.allocator.stats.usedBytes ∨
        ∃ panic, (service.store platform now stream).2 = .error (.panic panic)
  | .cache (.get request) =>
      LruPanics service.index.lru ∨
        ∃ prefixHash entry, parsePrefixHash request.prefixHash = .ok prefixHash ∧
          service.index.map.lookup (compositeKey platform request.modelId prefixHash) =
            some entry ∧
          ReadPanics platform service.allocator entry
  | .cache (.delete request) =>
      LruPanics service.index.lru ∨
        ∃ panic, (service.delete request).2 = .error (.panic panic)
  | .stats => usizeBound ≤ service.allocator.stats.usedBytes
  | .health => False

/-- What panics in one atomic step of the requests in flight. -/
def System.StepPanics (platform : Platform) (system : System) : Action → Prop
  | .storeWrite _ data =>
      ∃ panic, (system.allocator.allocateAndWrite platform data).2 = .error panic
  | .getRead position =>
      ∃ pending ∈ system.gets[position]?, ReadPanics platform system.allocator pending.entry
  | .deleteFree position =>
      ∃ blocks ∈ system.deletes[position]?, ∃ location ∈ blocks.head?, ∃ panic,
        system.allocator.deallocate (CacheService.localHandle location) = .error panic
  | .storeInsert _ _ => LruPanics system.index.lru
  | .lookup _ => LruPanics system.index.lru
  | .getLookup _ => LruPanics system.index.lru
  | .deleteRemove _ => LruPanics system.index.lru

/-- A Store that is let in and whose header has a well-formed hash and a total size above
`isize::MAX`. -/
def Rpc.Overclaims (service : CacheService) : Rpc → Prop
  | .cache (.store _ stream) =>
      service.pressureLevel < pressureReject ∧
        ∃ header rest, stream = .ok ⟨some (.header header)⟩ :: rest ∧
          header.prefixHash.length = 16 ∧ isizeMax < header.totalSize.toNat
  | _ => False

/-! ## What cannot panic -/

theorem not_lruPanics (policy : LruPolicy) : ¬ LruPanics policy := by
  obtain ⟨nodes, represents⟩ := policy.wellFormed
  rintro (⟨key, panic, failed⟩ | ⟨key, panic, failed⟩ | ⟨panic, failed⟩)
  · obtain ⟨inner, -, touched, -⟩ := LruInner.touch_spec represents key
    rw [touched] at failed
    cases failed
  · obtain ⟨inner, -, removed, -⟩ := LruInner.remove_spec represents key
    rw [removed] at failed
    cases failed
  · obtain ⟨inner, -, evicted, -⟩ := LruInner.evictLru_spec represents
    rw [evicted] at failed
    cases failed

theorem usedBytes_lt (allocator : BlockAllocator) : allocator.stats.usedBytes < usizeBound := by
  have atMost : allocator.stats.usedBytes ≤ allocator.pool.geometry.totalSize := by
    rw [allocator.pool.geometry.sizeEq]
    exact Nat.mul_le_mul_right _ (Nat.sub_le _ _)
  exact atMost.trans_lt allocator.pool.geometry.sizeLt

section FirstPool

variable {platform : Platform} {allocator : BlockAllocator}

/-- Over the first pool a rebuilt handle passes the assertion of `get_ptr`; the slices
behind it are guarded. -/
theorem not_readPanics (firstPool : allocator.pool.geometry.poolId = 0) (entry : IndexEntry) :
    ¬ ReadPanics platform allocator entry := by
  rintro ⟨location, -, panic, failed⟩
  have samePool : (CacheService.localHandle location).poolId = allocator.pool.geometry.poolId :=
    firstPool.symm
  simp only [BlockAllocator.readVerified, MemoryPool.getSlice, MemoryPool.getPtr, samePool, ne_eq,
    not_true, if_false, bind, Except.bind, pure, Except.pure] at failed
  split at failed
  · cases failed
  · split_ifs at failed

theorem not_writePanics (headerFits : BlockHeader.size ≤ allocator.pool.geometry.blockSize)
    (data : List UInt8) {panic : Panic} :
    (allocator.allocateAndWrite platform data).2 ≠ .error panic := by
  intro failed
  have outcome : allocator.allocateAndWrite platform data =
      ((allocator.allocateAndWrite platform data).1, .error panic) := Prod.ext rfl failed
  exact absurd (BlockAllocator.allocateAndWrite_eq_error outcome).1 (not_lt.mpr headerFits)

/-- Freeing the blocks of an entry passes both assertions as long as the indices are
inside the pool. -/
theorem deallocateBlocks_returns (firstPool : allocator.pool.geometry.poolId = 0)
    {blocks : List BlockStore.BlockLocation}
    (inside : ∀ location ∈ blocks,
      location.blockIndex.toNat < allocator.pool.geometry.totalBlocks) :
    (CacheService.deallocateBlocks allocator blocks).2 = .ok () := by
  induction blocks generalizing allocator with
  | nil => rfl
  | cons location rest inductionHypothesis =>
      obtain ⟨pool, poolFreed, freed⟩ := @BlockAllocator.exists_deallocate allocator
        (CacheService.localHandle location) firstPool.symm (inside location List.mem_cons_self)
      obtain ⟨-, -, -, geometryKept, -⟩ := MemoryPool.deallocate_eq_ok poolFreed
      rw [CacheService.deallocateBlocks, freed]
      apply inductionHypothesis
      · exact (congrArg Geometry.poolId geometryKept).trans firstPool
      · intro other later
        have inPool := inside other (List.mem_cons_of_mem _ later)
        rwa [← geometryKept] at inPool

end FirstPool

/-! ## Admission -/

/-- While the data is collected a Store is refused by a status or by the allocator. -/
theorem collectData_ne_panic {platform : Platform} {capacity : Nat} {data : List UInt8}
    {panic : Panic} (rest : StoreStream) :
    CacheService.collectData platform capacity data rest ≠ .error (.panic panic) := by
  induction rest generalizing capacity data with
  | nil => exact fun failed => by cases failed
  | cons message rest inductionHypothesis =>
      rcases message with status | ⟨⟨⟩ | header | chunk⟩
      · exact fun failed => by cases failed
      · exact inductionHypothesis
      · exact fun failed => by cases failed
      · rw [CacheService.collectData, CacheService.reserve]
        by_cases refused : capacity < CacheService.grownCapacity capacity
              (data.length + chunk.length) ∧
            platform.reservable < CacheService.grownCapacity capacity (data.length + chunk.length)
        · rw [if_pos refused]
          exact fun failed => by cases failed
        · rw [if_neg refused]
          exact inductionHypothesis

/-- A Store panics before the allocator of blocks is asked only where its buffer is
reserved. -/
theorem overclaims_of_storeAdmit {platform : Platform} {service : CacheService} (now : UInt64)
    {stream : StoreStream} {panic : Panic}
    (panicked : service.storeAdmit platform stream = .error (.panic panic)) :
    (Rpc.cache (.store now stream)).Overclaims service := by
  by_cases calm : service.pressureLevel < pressureReject
  · refine ⟨calm, ?_⟩
    have notRejected : ¬ service.pressureLevel ≥ pressureReject := UInt8.not_le.mpr calm
    cases read : CacheService.readHeader stream with
    | error status =>
        simp [CacheService.storeAdmit, notRejected, read, Except.mapError, bind, Except.bind]
          at panicked
    | ok pair =>
        obtain ⟨header, rest⟩ := pair
        obtain rfl := CacheService.readHeader_eq_ok read
        cases parsed : parsePrefixHash header.prefixHash with
        | error status =>
            simp [CacheService.storeAdmit, notRejected, read, parsed, Except.mapError, bind,
              Except.bind] at panicked
        | ok prefixHash =>
            refine ⟨header, rest, rfl, length_of_parsePrefixHash parsed, ?_⟩
            by_contra modest
            rw [CacheService.storeAdmit_headed platform calm parsed, CacheService.withCapacity,
              if_neg modest] at panicked
            by_cases refused : platform.reservable < header.totalSize.toNat
            · rw [if_pos refused] at panicked
              cases panicked
            · rw [if_neg refused] at panicked
              cases collected : CacheService.collectData platform header.totalSize.toNat [] rest with
              | error failure =>
                  simp only [Except.bind, collected, Except.map, Except.error.injEq] at panicked
                  rw [panicked] at collected
                  exact collectData_ne_panic rest collected
              | ok data => simp [Except.bind, collected, Except.map] at panicked
  · have rejected : service.pressureLevel ≥ pressureReject := UInt8.not_lt.mp calm
    simp [CacheService.storeAdmit, rejected, throw, throwThe, MonadExceptOf.throw, bind,
      Except.bind] at panicked

theorem storeAdmit_of_overclaims (platform : Platform) {service : CacheService} {now : UInt64}
    {stream : StoreStream} (overclaims : (Rpc.cache (.store now stream)).Overclaims service) :
    service.storeAdmit platform stream = .error (.panic .capacityOverflow) := by
  obtain ⟨calm, header, rest, rfl, sized, excessive⟩ := overclaims
  obtain ⟨prefixHash, parsed⟩ := exists_parsePrefixHash sized
  rw [CacheService.storeAdmit_headed platform calm parsed, CacheService.withCapacity,
    if_pos excessive]
  rfl

/-! ## Whole requests -/

section Whole

variable {platform : Platform} {service : CacheService}

theorem store_panics_iff (headerFits : BlockHeader.size ≤ service.allocator.pool.geometry.blockSize)
    (now : UInt64) (stream : StoreStream) :
    (∃ panic, (service.store platform now stream).2 = .error (.panic panic)) ↔
      (Rpc.cache (.store now stream)).Overclaims service := by
  constructor
  · rintro ⟨panic, failed⟩
    cases admitted : service.storeAdmit platform stream with
    | error failure =>
        rw [CacheService.store_of_not_admitted admitted] at failed
        obtain rfl : failure = .panic panic := Except.error.inj failed
        exact overclaims_of_storeAdmit now admitted
    | ok pair =>
        rcases outcome : service.allocator.allocateAndWrite platform pair.2 with
          ⟨allocator, panicked | refused | ⟨location, handle⟩⟩
        · exact absurd (congrArg Prod.snd outcome) (not_writePanics headerFits pair.2)
        · rw [CacheService.store_of_refused admitted outcome] at failed
          cases failed
        · rw [CacheService.store_of_written admitted outcome] at failed
          cases failed
  · intro overclaims
    refine ⟨.capacityOverflow, ?_⟩
    rw [CacheService.store_of_not_admitted (storeAdmit_of_overclaims platform overclaims)]

theorem not_deletePanics (firstPool : service.allocator.pool.geometry.poolId = 0)
    (inside : ∀ location ∈ service.index.locations,
      location.blockIndex.toNat < service.allocator.pool.geometry.totalBlocks)
    (request : DeleteRequest) {panic : Panic} :
    (service.delete request).2 ≠ .error (.panic panic) := by
  intro failed
  unfold CacheService.delete at failed
  split at failed
  · cases failed
  · rename_i prefixHash parsed
    split at failed
    · cases failed
    · rename_i index entry removed
      have found : service.index.map.lookup prefixHash = some entry := by
        rw [← BlockIndex.remove_snd, removed]
      have freed := @deallocateBlocks_returns service.allocator firstPool entry.blocks
        fun location member => inside location (mem_gather.mpr ⟨prefixHash, entry, found, member⟩)
      split at failed
      · rename_i allocator panic' outcome
        rw [outcome] at freed
        cases freed
      · cases failed

/-- A whole request panics exactly when it overclaims, over the first pool and blocks that
hold a header, as long as every indexed block is inside the pool. -/
theorem rpc_panics_iff (headerFits : BlockHeader.size ≤ service.allocator.pool.geometry.blockSize)
    (firstPool : service.allocator.pool.geometry.poolId = 0)
    (inside : ∀ location ∈ service.index.locations,
      location.blockIndex.toNat < service.allocator.pool.geometry.totalBlocks) (rpc : Rpc) :
    rpc.Panics platform service ↔ rpc.Overclaims service := by
  have noSlab := not_lruPanics service.index.lru
  have noProduct := not_le.mpr (usedBytes_lt service.allocator)
  cases rpc with
  | stats => exact iff_of_false noProduct id
  | health => exact Iff.rfl
  | cache request =>
      cases request with
      | lookup request => exact iff_of_false noSlab id
      | batchLookup request => exact iff_of_false noSlab id
      | store now stream =>
          rw [Rpc.Panics, store_panics_iff headerFits]
          exact (or_iff_right noSlab).trans (or_iff_right noProduct)
      | get request =>
          refine iff_of_false ?_ id
          rintro (slab | ⟨-, entry, -, -, panics⟩)
          · exact noSlab slab
          · exact not_readPanics firstPool entry panics
      | delete request =>
          refine iff_of_false ?_ id
          rintro (slab | ⟨panic, failed⟩)
          · exact noSlab slab
          · exact not_deletePanics firstPool inside request failed

end Whole

/-- No atomic step of a request in flight panics, over the first pool and blocks that hold
a header, as long as every held block is inside the pool. -/
theorem System.not_stepPanics {platform : Platform} {system : System}
    (headerFits : BlockHeader.size ≤ system.allocator.pool.geometry.blockSize)
    (firstPool : system.allocator.pool.geometry.poolId = 0)
    (inside : ∀ location ∈ system.held,
      location.blockIndex.toNat < system.allocator.pool.geometry.totalBlocks) (action : Action) :
    ¬ system.StepPanics platform action := by
  have noSlab := not_lruPanics system.index.lru
  cases action with
  | storeWrite key data =>
      rintro ⟨panic, failed⟩
      exact not_writePanics headerFits data failed
  | getRead position =>
      rintro ⟨pending, -, panics⟩
      exact not_readPanics firstPool pending.entry panics
  | deleteFree position =>
      rintro ⟨blocks, selected, location, isFirst, panic, failed⟩
      have member : location ∈ system.held :=
        mem_held_of_mem_deletes (List.mem_of_getElem? selected) (List.mem_of_mem_head? isFirst)
      obtain ⟨pool, -, freed⟩ := @BlockAllocator.exists_deallocate system.allocator
        (CacheService.localHandle location) firstPool.symm (inside location member)
      rw [freed] at failed
      cases failed
  | storeInsert position now => exact noSlab
  | lookup key => exact noSlab
  | getLookup key => exact noSlab
  | deleteRemove key => exact noSlab

/-- In every state that interleaved requests can reach, no atomic step of a request in
flight panics, and a whole request panics exactly when it is a Store that is let in with a
well-formed hash and a total size above `isize::MAX`: everything else a header, a stream or
a handle rebuilt from an entry can say is checked or holds of every entry. -/
theorem handlers_panic_iff_overclaimed (platform : Platform) {geometry : Geometry}
    (headerFits : BlockHeader.size ≤ geometry.blockSize)
    (indexable : geometry.totalBlocks ≤ 2 ^ 32) (firstPool : geometry.poolId = 0)
    (nodeId : UInt32) (capacity : Nat) (actions : List Action) :
    let system := run (System.step platform) (System.new geometry nodeId capacity) actions
    (∀ action, ¬ system.StepPanics platform action) ∧
      ∀ service : CacheService, service.allocator = system.allocator →
        service.index = system.index →
          ∀ rpc : Rpc, rpc.Panics platform service ↔ rpc.Overclaims service := by
  intro system
  have exclusive := run_exclusive indexable platform nodeId capacity actions
  have geometryEq : system.allocator.pool.geometry = geometry := exclusive.geometryEq
  have inside : ∀ location ∈ system.held,
      location.blockIndex.toNat < system.allocator.pool.geometry.totalBlocks := by
    intro location member
    rw [geometryEq]
    exact (exclusive.placed location member).inPool
  rw [← geometryEq] at headerFits firstPool
  constructor
  · exact System.not_stepPanics headerFits firstPool inside
  · intro service sameAllocator sameIndex rpc
    rw [← sameAllocator] at headerFits firstPool inside
    apply rpc_panics_iff headerFits firstPool
    intro location indexed
    rw [sameIndex] at indexed
    exact inside location (System.mem_held_of_mem_locations indexed)

/-- A Store that claims no more than it sends does not panic while a Delete of the same key
has its block yet to free. -/
theorem handlers_panic_iff_modest :
    let key : PrefixHash := .ofByte 1
    let system := run (System.step .release) (System.new Geometry.twoBlocks 0 2)
      [.storeWrite key [7], .storeInsert 0 0, .deleteRemove key]
    let service : CacheService :=
      { CacheService.new Geometry.twoBlocks 2 "a" false none with
        allocator := system.allocator, index := system.index }
    ¬ system.StepPanics .release (.deleteFree 0) ∧
      ¬ (Rpc.cache (.store 0 (storeMessages ⟨key.toBytes, 1, ""⟩ [[7]]))).Panics .release
        service := by
  intro key system service
  have panicFree := handlers_panic_iff_overclaimed .release
    (show BlockHeader.size ≤ Geometry.twoBlocks.blockSize by decide) (by decide) rfl 0 2
    [.storeWrite key [7], .storeInsert 0 0, .deleteRemove key]
  refine ⟨panicFree.1 (.deleteFree 0), ?_⟩
  rw [panicFree.2 service rfl rfl]
  rintro ⟨-, header, rest, headed, -, excessive⟩
  obtain ⟨rfl, -⟩ : (⟨key.toBytes, 1, ""⟩ : StoreHeader) = header ∧ _ := by
    simpa [storeMessages] using headed
  exact absurd excessive (by decide)

/-- A Store of a fresh agent whose header claims `2 ^ 63` bytes panics at the reservation. -/
theorem store_panics_overclaimed :
    let service := CacheService.new Geometry.twoBlocks 2 "a" false none
    let header : StoreHeader := ⟨(PrefixHash.ofByte 1).toBytes, 2 ^ 63, ""⟩
    (service.store .release 0 (storeMessages header [[7]])).2 =
      .error (.panic .capacityOverflow) := by
  decide +kernel

end CmxRdma.Agent
