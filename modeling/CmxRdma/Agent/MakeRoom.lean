import CmxRdma.Agent.Conservation

/-!
Contract: when a Store that fits finds room, for the agent `main` builds.

Owns: the exact condition under which such a Store succeeds, and that no Store
of that agent ever evicts an entry.

Does not own: Stores that break the stream protocol, which fail before any
block is asked for.
-/

namespace CmxRdma.Agent

open CmxRdma.BlockStore
open CmxRdma.Lib.Transition
open CmxRdma.Memory
open CmxRdma.Proto

/-- The agent of `main`: `max_entries` is the pool size over the block size, and
the remote index starts empty. -/
def CacheService.ofMain (geometry : Geometry) (nodeId : String) (metadata : Bool) :
    CacheService :=
  CacheService.new geometry (geometry.totalSize / geometry.blockSize) nodeId metadata
    (some RemoteIndex.new)

theorem ofMain_accounted (geometry : Geometry) (nodeId : String) (metadata : Bool) :
    Accounted geometry geometry.totalBlocks (CacheService.ofMain geometry nodeId metadata) 0 := by
  have maxEntries : geometry.totalSize / geometry.blockSize = geometry.totalBlocks := by
    rw [geometry.sizeEq, Nat.mul_div_cancel _ geometry.blockSizePos]
  unfold CacheService.ofMain
  rw [maxEntries]
  exact new_accounted geometry geometry.totalBlocks nodeId metadata (some RemoteIndex.new)

/-- A pool as large as the index runs out first: while a block is free, the
index is below capacity. -/
theorem Accounted.len_lt_of_free {geometry : Geometry} {service : CacheService} {lost : Nat}
    (accounted : Accounted geometry geometry.totalBlocks service lost)
    (available : service.allocator.pool.freeList ≠ []) :
    service.index.len < service.index.capacity := by
  have balance := accounted.balance
  have someFree := List.length_pos_of_ne_nil available
  rw [accounted.capacityEq]
  omega

section Store

variable {platform : Platform} {geometry : Geometry} {service : CacheService}
  {stream : StoreStream} {key : PrefixHash} {data : List UInt8}

/-- A Store that succeeds found a free block. -/
theorem freeList_of_isOk {now : UInt64}
    (succeeds : (service.store platform now stream).2.isOk) :
    service.allocator.pool.freeList ≠ [] := by
  cases admitted : service.storeAdmit platform stream with
  | error failure =>
      rw [CacheService.store_of_not_admitted admitted] at succeeds
      cases succeeds
  | ok pair =>
      obtain ⟨allocator, location, handle, outcome, -⟩ :=
        CacheService.store_eq_of_isOk admitted succeeds
      obtain ⟨block, popped, -⟩ := BlockAllocator.allocateAndWrite_eq_some outcome
      simp [popped]

/-- An admitted Store that fits succeeds exactly when a block is free. -/
theorem store_isOk_iff_of_admitted
    (admitted : service.storeAdmit platform stream = .ok (key, data))
    (fits : BlockHeader.size + data.length ≤ service.allocator.pool.geometry.blockSize)
    (now : UInt64) :
    (service.store platform now stream).2.isOk ↔ service.allocator.pool.freeList ≠ [] := by
  constructor
  · exact freeList_of_isOk
  · intro available
    obtain ⟨allocator, location, handle, outcome⟩ :=
      BlockAllocator.exists_allocateAndWrite_of_fits platform fits available
    rw [CacheService.store_of_written admitted outcome]
    rfl

/-- A Store while the index is below capacity keeps every entry it finds. -/
theorem store_keeps_entries {capacity lost : Nat}
    (accounted : Accounted geometry capacity service lost)
    (room : service.allocator.pool.freeList ≠ [] → service.index.len < service.index.capacity)
    (now : UInt64) (stream : StoreStream) :
    (service.store platform now stream).1.evictions = service.evictions ∧
      ∀ other ∈ service.index.map, other ∈ (service.store platform now stream).1.index.map := by
  cases admitted : service.storeAdmit platform stream with
  | error failure =>
      rw [CacheService.store_of_not_admitted admitted]
      exact ⟨rfl, fun other present => present⟩
  | ok pair =>
      obtain ⟨key, data⟩ := pair
      rcases outcome : service.allocator.allocateAndWrite platform data with ⟨allocator, result⟩
      rcases result with panic | refused | ⟨location, handle⟩
      · rw [CacheService.store_of_panic admitted outcome]
        exact ⟨rfl, fun other present => present⟩
      · rw [CacheService.store_of_refused admitted outcome]
        exact ⟨rfl, fun other present => present⟩
      · rw [CacheService.store_of_written admitted outcome]
        obtain ⟨block, freeEq, -⟩ := BlockAllocator.allocateAndWrite_eq_some outcome
        obtain ⟨nobody, kept⟩ := accounted.tracks.insert_below_capacity
          (room (by simp [freeEq])) key [location] now
        refine ⟨?_, kept⟩
        simp only [CacheService.storeCommit, nobody, List.length_nil]
        exact UInt64.add_zero _

end Store

/-- In every state the agent of `main` reaches with the pressure below the reject
level, a Store that keeps to the protocol and fits in a block succeeds exactly
when a block is free and its buffer can be allocated, as declared and as it grows
with the data, however many entries there are to evict. A full pool is never
relieved: no Store evicts anyone, because the index is as large as the pool and the
block is taken before the index is asked. -/
theorem store_succeeds_iff_block_free (platform : Platform) (geometry : Geometry)
    (nodeId : String) (metadata : Bool) (events : List Event) (service : CacheService)
    (reached : run (next (CacheService.react platform))
      (CacheService.ofMain geometry nodeId metadata) events = service)
    (calm : service.pressureLevel < pressureReject)
    (header : StoreHeader) (chunks : List (List UInt8)) (now : UInt64)
    (sized : header.prefixHash.length = 16)
    (fits : chunks.flatten.length + 24 ≤ geometry.blockSize) :
    ((service.store platform now (storeMessages header chunks)).2.isOk ↔
      service.allocator.pool.freeList ≠ [] ∧
        CacheService.bufferCapacity header.totalSize.toNat 0 chunks ≤ platform.reservable) ∧
    (service.store platform now (storeMessages header chunks)).1.evictions = service.evictions ∧
    ∀ other ∈ service.index.map,
      other ∈ (service.store platform now (storeMessages header chunks)).1.index.map := by
  obtain ⟨lost, accounted, -⟩ :=
    (ofMain_accounted geometry nodeId metadata).run_react platform events
  rw [reached] at accounted
  refine ⟨?_, store_keeps_entries accounted accounted.len_lt_of_free now _⟩
  obtain ⟨prefixHash, parsed⟩ := exists_parsePrefixHash sized
  have room : BlockHeader.size + chunks.flatten.length ≤
      service.allocator.pool.geometry.blockSize := by
    rw [accounted.geometryEq, BlockHeader.size, Nat.add_comm]
    exact fits
  constructor
  · intro succeeds
    refine ⟨freeList_of_isOk succeeds, ?_⟩
    cases admitted : service.storeAdmit platform (storeMessages header chunks) with
    | error failure =>
        rw [CacheService.store_of_not_admitted admitted] at succeeds
        cases succeeds
    | ok pair => exact CacheService.granted_of_storeAdmit admitted
  · rintro ⟨available, granted⟩
    have admitted := CacheService.storeAdmit_storeMessages calm parsed granted
    exact (store_isOk_iff_of_admitted admitted room now).mpr available

/-- After one Store on a pool of two blocks the second finds the free block. -/
theorem store_succeeds_with_block_free :
    let service := run (next (CacheService.react Platform.release))
      (CacheService.ofMain Geometry.twoBlocks "node" false)
      [.request (.store 0 (storeMessages ⟨List.replicate 16 1, 1, ""⟩ [[7]]))]
    service.pressureLevel < pressureReject ∧ 1 ≤ service.index.len ∧
      (service.store Platform.release 0
        (storeMessages ⟨List.replicate 16 2, 1, ""⟩ [[8]])).2.isOk := by
  intro service
  have calm : service.pressureLevel < pressureReject := by decide +kernel
  refine ⟨calm, by decide +kernel, ?_⟩
  refine (store_succeeds_iff_block_free Platform.release Geometry.twoBlocks "node" false _ service
    rfl calm ⟨List.replicate 16 2, 1, ""⟩ [[8]] 0 (by decide) (by decide)).1.mpr ?_
  decide +kernel

/-- Two Stores fill a pool of two blocks; the third fits in a block, the pressure
is zero and there are entries to evict, and it is refused. -/
theorem store_refused_by_full_pool :
    let store (byte : UInt8) : StoreStream := storeMessages ⟨List.replicate 16 byte, 1, ""⟩ [[7]]
    let service := run (next (CacheService.react Platform.release))
      (CacheService.ofMain Geometry.twoBlocks "node" false)
      [.request (.store 0 (store 1)), .request (.store 0 (store 2))]
    service.pressureLevel < pressureReject ∧ 1 ≤ service.index.len ∧
      1 + 24 ≤ Geometry.twoBlocks.blockSize ∧
      (service.store Platform.release 0 (store 3)).2 =
        .error (.status (resourceExhausted "memory pool exhausted")) := by
  decide +kernel

end CmxRdma.Agent
