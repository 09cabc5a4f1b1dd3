import CmxRdma.Agent.Ownership

/-!
Contract: what an agent answers while nothing is deleted or evicted.

Owns: the answers to Lookup and Get as functions of the entry of the key, what an
entry keeps and how a Store that succeeds treats it, and the contents of such an
agent as a function from keys to bytes.

Does not own: which Stores succeed. Nothing is freed here, so blocks are told
apart by their offsets and pools of any size are covered.
-/

namespace CmxRdma.Agent

open CmxRdma.BlockStore
open CmxRdma.Memory
open CmxRdma.Proto

/-- An entry whose one block is off the free list and holds the bytes. -/
structure Keeps (platform : Platform) (allocator : BlockAllocator) (entry : IndexEntry)
    (bytes : List UInt8) (location : BlockStore.BlockLocation) (block : Nat) : Prop where
  single : entry.blocks = [location]
  offsetEq : location.offset.toNat = block * allocator.pool.geometry.blockSize
  taken : block ∉ allocator.pool.freeList
  fits : BlockHeader.size + bytes.length ≤ allocator.pool.geometry.blockSize
  short : bytes.length < 2 ^ 32
  holds : BlockAllocator.Holds platform allocator.pool.geometry allocator.pool.region block bytes
    location.generation

/-- The agent keeps exactly the contents. -/
structure Retains (platform : Platform) (service : CacheService)
    (contents : PrefixHash → Option (List UInt8)) : Prop where
  firstPool : service.allocator.pool.geometry.poolId = 0
  freeNodup : service.allocator.pool.freeList.Nodup
  absent : ∀ key, contents key = none → service.index.map.lookup key = none
  present : ∀ key bytes, contents key = some bytes →
    ∃ entry location block, service.index.map.lookup key = some entry ∧
      Keeps platform service.allocator entry bytes location block
  vacant : ∀ key, service.remoteFirst key = none

theorem parsePrefixHash_toBytes (prefixHash : PrefixHash) :
    parsePrefixHash prefixHash.toBytes = .ok prefixHash := by
  rw [parsePrefixHash, PrefixHash.ofBytes?_toBytes]

theorem compositeKey_empty (platform : Platform) (prefixHash : PrefixHash) :
    compositeKey platform "" prefixHash = prefixHash := rfl

namespace CacheService

/-- The answer of Lookup as a function of the key's entry. -/
theorem lookup_answer (platform : Platform) (service : CacheService) (modelId : String)
    (prefixHash : PrefixHash) :
    (service.lookup platform ⟨prefixHash.toBytes, modelId⟩).2 =
      .ok (match service.index.map.lookup (compositeKey platform modelId prefixHash) with
        | some entry => ⟨true, entry.blocks.map service.protoLocation, true⟩
        | none =>
            match service.remoteFirst (compositeKey platform modelId prefixHash) with
            | some first =>
                ⟨true, [⟨first.nodeId, first.offset, first.size, first.generation⟩], false⟩
            | none => ⟨false, [], false⟩) := by
  rw [← BlockIndex.lookup_snd]
  simp only [lookup, parsePrefixHash_toBytes]
  rcases service.index.lookup (compositeKey platform modelId prefixHash) with ⟨index, _ | entry⟩
  · have sameRemote : ({ service with index := index } : CacheService).remoteFirst
        (compositeKey platform modelId prefixHash) =
          service.remoteFirst (compositeKey platform modelId prefixHash) := rfl
    simp only [sameRemote]
    cases service.remoteFirst (compositeKey platform modelId prefixHash) <;> rfl
  · rfl

/-- The answer of Get as a function of the key's entry. -/
theorem get_answer (platform : Platform) (service : CacheService) (modelId : String)
    (prefixHash : PrefixHash) :
    (service.get platform ⟨prefixHash.toBytes, modelId⟩).2 =
      match service.index.map.lookup (compositeKey platform modelId prefixHash) with
      | none => .error ⟨.notFound, "prefix hash not found in cache"⟩
      | some entry => .ok (getTask platform service.allocator entry) := by
  rw [← BlockIndex.lookup_snd]
  simp only [get, parsePrefixHash_toBytes]
  rcases service.index.lookup (compositeKey platform modelId prefixHash) with ⟨index, _ | entry⟩ <;>
    rfl

/-- A Lookup counts and touches the recency list, and changes nothing else. -/
theorem lookup_frame (platform : Platform) (service : CacheService) (prefixHash : PrefixHash)
    (modelId : String) :
    let reply := service.lookup platform ⟨prefixHash.toBytes, modelId⟩
    reply.1.allocator = service.allocator ∧ reply.1.index.map = service.index.map ∧
      reply.1.remoteIndex = service.remoteIndex := by
  have sameMap := service.index.lookup_map (compositeKey platform modelId prefixHash)
  simp only [lookup, parsePrefixHash_toBytes]
  rcases outcome : service.index.lookup (compositeKey platform modelId prefixHash) with
    ⟨index, _ | entry⟩
  · rw [outcome] at sameMap
    simp only
    split <;> exact ⟨rfl, sameMap, rfl⟩
  · rw [outcome] at sameMap
    exact ⟨rfl, sameMap, rfl⟩

/-- A Get counts and touches the recency list, and changes nothing else. -/
theorem get_frame (platform : Platform) (service : CacheService) (prefixHash : PrefixHash)
    (modelId : String) :
    let reply := service.get platform ⟨prefixHash.toBytes, modelId⟩
    reply.1.allocator = service.allocator ∧ reply.1.index.map = service.index.map ∧
      reply.1.remoteIndex = service.remoteIndex := by
  have sameMap := service.index.lookup_map (compositeKey platform modelId prefixHash)
  simp only [get, parsePrefixHash_toBytes]
  rcases outcome : service.index.lookup (compositeKey platform modelId prefixHash) with
    ⟨index, _ | entry⟩ <;>
  · rw [outcome] at sameMap
    exact ⟨rfl, sameMap, rfl⟩

end CacheService

section Keeping

variable {platform : Platform} {allocator allocator' : BlockAllocator} {entry : IndexEntry}
  {bytes data : List UInt8} {location fresh : BlockStore.BlockLocation} {block : Nat}
  {handle : BlockHandle}

/-- A kept entry reads back whole. -/
theorem Keeps.getTask_eq (keeps : Keeps platform allocator entry bytes location block)
    (firstPool : allocator.pool.geometry.poolId = 0) :
    CacheService.getTask platform allocator entry =
      [.ok ⟨some (.header (CacheService.getHeader entry))⟩, .ok ⟨some (.data bytes)⟩] := by
  have readBack : allocator.readVerified platform (CacheService.localHandle location) =
      .ok (some bytes) :=
    BlockAllocator.readVerified_of_holds keeps.holds keeps.fits firstPool.symm keeps.offsetEq
      keeps.short
  simp only [CacheService.getTask, keeps.single, CacheService.streamBlocks, readBack]

/-- A Get streams what the entry under its key keeps. -/
theorem Keeps.get {service : CacheService} {key : PrefixHash}
    (keeps : Keeps platform service.allocator entry bytes location block)
    (firstPool : service.allocator.pool.geometry.poolId = 0)
    (found : service.index.map.lookup key = some entry) :
    (service.get platform ⟨key.toBytes, ""⟩).2 =
      .ok [.ok ⟨some (.header (CacheService.getHeader entry))⟩, .ok ⟨some (.data bytes)⟩] := by
  rw [CacheService.get_answer, compositeKey_empty, found]
  exact congrArg Except.ok (keeps.getTask_eq firstPool)

/-- Writing another block leaves a kept entry alone. -/
theorem Keeps.write (keeps : Keeps platform allocator entry bytes location block)
    (outcome : allocator.allocateAndWrite platform data =
      (allocator', .ok (some (fresh, handle)))) :
    Keeps platform allocator' entry bytes location block := by
  obtain ⟨top, freeEq, fits, rfl, geometryKept, -, -, regionEq⟩ :=
    BlockAllocator.allocateAndWrite_eq_some outcome
  have different : block ≠ top := by
    rintro rfl
    exact keeps.taken (by simp [freeEq])
  refine ⟨keeps.single, geometryKept ▸ keeps.offsetEq, ?_, geometryKept ▸ keeps.fits, keeps.short,
    ?_⟩
  · intro member
    exact keeps.taken (freeEq ▸ List.mem_append_left _ member)
  · rw [geometryKept, regionEq]
    exact keeps.holds.written_other fits keeps.fits different

/-- A written block is kept by the entry made for it. -/
theorem keeps_of_write (freeNodup : allocator.pool.freeList.Nodup)
    (outcome : allocator.allocateAndWrite platform data =
      (allocator', .ok (some (fresh, handle)))) (short : data.length < 2 ^ 32) (now : UInt64) :
    ∃ block, Keeps platform allocator' ⟨[fresh], now⟩ data fresh block := by
  obtain ⟨top, freeEq, fits, rfl, geometryKept, -, -, regionEq⟩ :=
    BlockAllocator.allocateAndWrite_eq_some outcome
  have inside : top < allocator.pool.geometry.totalBlocks :=
    allocator.pool.freeBelow top (by simp [freeEq])
  refine ⟨top, rfl, ?_, ?_, geometryKept ▸ fits, short, ?_⟩
  · rw [geometryKept]
    exact offset_locationFor inside
  · rw [freeEq] at freeNodup
    intro again
    exact (List.nodup_append.mp freeNodup).2.2 top again top (by simp) rfl
  · rw [geometryKept, regionEq]
    exact BlockAllocator.holds_written platform _ _ top data _

/-- The entry made for a written block is none that is kept already. -/
theorem Keeps.ne_written (keeps : Keeps platform allocator entry bytes location block)
    (outcome : allocator.allocateAndWrite platform data =
      (allocator', .ok (some (fresh, handle)))) (now : UInt64) : entry ≠ ⟨[fresh], now⟩ := by
  obtain ⟨top, freeEq, -, rfl, -⟩ := BlockAllocator.allocateAndWrite_eq_some outcome
  have onFreeList : top ∈ allocator.pool.freeList := by simp [freeEq]
  intro same
  have sameLocation : location = allocator.locationFor top := by
    have single := keeps.single
    rw [same] at single
    exact (List.singleton_inj.mp single).symm
  have sameOffset := keeps.offsetEq
  rw [sameLocation, offset_locationFor (allocator.pool.freeBelow top onFreeList)] at sameOffset
  have sameBlock := Nat.eq_of_mul_eq_mul_right allocator.pool.geometry.blockSizePos sameOffset
  exact keeps.taken (sameBlock ▸ onFreeList)

end Keeping

section Storing

variable {platform : Platform} {service : CacheService} {stream : StoreStream}
  {key other : PrefixHash} {data bytes : List UInt8} {now : UInt64} {entry : IndexEntry}
  {location : BlockStore.BlockLocation} {block : Nat}

theorem geometry_store (admitted : service.storeAdmit platform stream = .ok (key, data))
    (succeeds : (service.store platform now stream).2.isOk) :
    (service.store platform now stream).1.allocator.pool.geometry =
      service.allocator.pool.geometry := by
  obtain ⟨allocator, fresh, handle, outcome, after⟩ :=
    CacheService.store_eq_of_isOk admitted succeeds
  obtain ⟨top, -, -, -, geometryKept, -⟩ := BlockAllocator.allocateAndWrite_eq_some outcome
  rw [after]
  exact geometryKept

theorem freeNodup_store (admitted : service.storeAdmit platform stream = .ok (key, data))
    (succeeds : (service.store platform now stream).2.isOk)
    (freeNodup : service.allocator.pool.freeList.Nodup) :
    (service.store platform now stream).1.allocator.pool.freeList.Nodup := by
  obtain ⟨allocator, fresh, handle, outcome, after⟩ :=
    CacheService.store_eq_of_isOk admitted succeeds
  obtain ⟨top, freeEq, -⟩ := BlockAllocator.allocateAndWrite_eq_some outcome
  rw [after]
  rw [freeEq] at freeNodup
  exact (List.nodup_append.mp freeNodup).1

/-- A Store that succeeds keeps its bytes under its key. -/
theorem keeps_of_store (admitted : service.storeAdmit platform stream = .ok (key, data))
    (succeeds : (service.store platform now stream).2.isOk)
    (freeNodup : service.allocator.pool.freeList.Nodup) (short : data.length < 2 ^ 32) :
    ∃ entry location block,
      (service.store platform now stream).1.index.map.lookup key = some entry ∧
      Keeps platform (service.store platform now stream).1.allocator entry data location block := by
  obtain ⟨allocator, fresh, handle, outcome, after⟩ :=
    CacheService.store_eq_of_isOk admitted succeeds
  obtain ⟨block, keeps⟩ := keeps_of_write freeNodup outcome short now
  rw [after]
  exact ⟨⟨[fresh], now⟩, fresh, block, AList.lookup_insert _, keeps⟩

/-- A Store that succeeds leaves what else is kept in its block. -/
theorem Keeps.store (keeps : Keeps platform service.allocator entry bytes location block)
    (admitted : service.storeAdmit platform stream = .ok (key, data))
    (succeeds : (service.store platform now stream).2.isOk) :
    Keeps platform (service.store platform now stream).1.allocator entry bytes location block := by
  obtain ⟨allocator, fresh, handle, outcome, after⟩ :=
    CacheService.store_eq_of_isOk admitted succeeds
  rw [after]
  exact keeps.write outcome

theorem lookup_of_lookup_store (admitted : service.storeAdmit platform stream = .ok (key, data))
    (succeeds : (service.store platform now stream).2.isOk) (different : other ≠ key)
    (found : (service.store platform now stream).1.index.map.lookup other = some entry) :
    service.index.map.lookup other = some entry := by
  obtain ⟨allocator, fresh, handle, outcome, after⟩ :=
    CacheService.store_eq_of_isOk admitted succeeds
  rw [after] at found
  rcases BlockIndex.lookup_of_lookup_insert found with ⟨same, -⟩ | before
  · exact absurd same different
  · exact before

/-- An entry kept before a Store is not found under the key of the Store. -/
theorem Keeps.ne_of_lookup_store
    (keeps : Keeps platform service.allocator entry bytes location block)
    (admitted : service.storeAdmit platform stream = .ok (key, data))
    (succeeds : (service.store platform now stream).2.isOk)
    (found : (service.store platform now stream).1.index.map.lookup other = some entry) :
    other ≠ key := by
  obtain ⟨allocator, fresh, handle, outcome, after⟩ :=
    CacheService.store_eq_of_isOk admitted succeeds
  rintro rfl
  rw [after] at found
  have written : entry = ⟨[fresh], now⟩ :=
    Option.some.inj (found.symm.trans (AList.lookup_insert _))
  exact keeps.ne_written outcome now written

/-- The entry a Store makes has one block. -/
theorem single_store (admitted : service.storeAdmit platform stream = .ok (key, data))
    (succeeds : (service.store platform now stream).2.isOk)
    (single : ∀ key entry, service.index.map.lookup key = some entry →
      ∃ location, entry.blocks = [location])
    (found : (service.store platform now stream).1.index.map.lookup other = some entry) :
    ∃ location, entry.blocks = [location] := by
  obtain ⟨allocator, fresh, handle, outcome, after⟩ :=
    CacheService.store_eq_of_isOk admitted succeeds
  rw [after] at found
  rcases BlockIndex.lookup_of_lookup_insert found with ⟨-, isNew⟩ | before
  · exact ⟨fresh, by rw [isNew]⟩
  · exact single other entry before

end Storing

section Answers

variable {platform : Platform} {service service' : CacheService}
  {contents : PrefixHash → Option (List UInt8)}

/-- Lookups and hit counts change nothing that is kept. -/
theorem Retains.looked (retains : Retains platform service contents)
    (sameAllocator : service'.allocator = service.allocator)
    (sameMap : service'.index.map = service.index.map)
    (sameRemote : service'.remoteIndex = service.remoteIndex) :
    Retains platform service' contents where
  firstPool := sameAllocator ▸ retains.firstPool
  freeNodup := sameAllocator ▸ retains.freeNodup
  absent := sameMap ▸ retains.absent
  present := by
    rw [sameAllocator, sameMap]
    exact retains.present
  vacant := by
    intro key
    rw [CacheService.remoteFirst, sameRemote]
    exact retains.vacant key

/-- A Lookup without a model id finds the key itself. -/
theorem Retains.lookup (retains : Retains platform service contents) (key : PrefixHash) :
    let reply := service.lookup platform ⟨key.toBytes, ""⟩
    Retains platform reply.1 contents ∧
      ∃ blocks isLocal, reply.2 = .ok ⟨(contents key).isSome, blocks, isLocal⟩ := by
  intro reply
  obtain ⟨sameAllocator, sameMap, sameRemote⟩ := service.lookup_frame platform key ""
  refine ⟨retains.looked sameAllocator sameMap sameRemote, ?_⟩
  simp only [reply, CacheService.lookup_answer, compositeKey_empty]
  cases kept : contents key with
  | none =>
      rw [retains.absent key kept, retains.vacant key]
      exact ⟨[], false, rfl⟩
  | some bytes =>
      obtain ⟨entry, -, -, found, -⟩ := retains.present key bytes kept
      rw [found]
      exact ⟨_, _, rfl⟩

/-- A Get without a model id streams what is kept under the key itself. -/
theorem Retains.get (retains : Retains platform service contents) (key : PrefixHash) :
    let reply := service.get platform ⟨key.toBytes, ""⟩
    Retains platform reply.1 contents ∧
      match contents key with
      | none => reply.2 = .error ⟨.notFound, "prefix hash not found in cache"⟩
      | some bytes => ∃ header,
          reply.2 = .ok [.ok ⟨some (.header header)⟩, .ok ⟨some (.data bytes)⟩] := by
  intro reply
  obtain ⟨sameAllocator, sameMap, sameRemote⟩ := service.get_frame platform key ""
  refine ⟨retains.looked sameAllocator sameMap sameRemote, ?_⟩
  cases kept : contents key with
  | none => simp only [reply, CacheService.get_answer, compositeKey_empty, retains.absent key kept]
  | some bytes =>
      obtain ⟨entry, location, block, found, keeps⟩ := retains.present key bytes kept
      exact ⟨_, keeps.get retains.firstPool found⟩

/-- A Store that succeeds and evicts nobody adds its bytes. -/
theorem Retains.store (retains : Retains platform service contents) {stream : StoreStream}
    {key : PrefixHash} {bytes : List UInt8} {now : UInt64}
    (admitted : service.storeAdmit platform stream = .ok (key, bytes))
    (short : bytes.length < 2 ^ 32) (succeeds : (service.store platform now stream).2.isOk)
    (nobodyLeft : ∀ other ∈ service.index.map,
      other ∈ (service.store platform now stream).1.index.map) :
    Retains platform (service.store platform now stream).1
      (Function.update contents key (some bytes)) := by
  refine ⟨?_, freeNodup_store admitted succeeds retains.freeNodup, ?_, ?_, ?_⟩
  · exact (congrArg Geometry.poolId (geometry_store admitted succeeds)).trans retains.firstPool
  · intro other missing
    by_cases same : other = key
    · rw [same, Function.update_self] at missing
      cases missing
    · rw [Function.update_of_ne same] at missing
      by_contra found
      obtain ⟨entry, lookedUp⟩ := Option.ne_none_iff_exists'.mp found
      have before := lookup_of_lookup_store admitted succeeds same lookedUp
      rw [retains.absent other missing] at before
      cases before
  · intro other stored updated
    by_cases same : other = key
    · subst same
      rw [Function.update_self] at updated
      cases updated
      exact keeps_of_store admitted succeeds retains.freeNodup short
    · rw [Function.update_of_ne same] at updated
      obtain ⟨entry, location, block, lookedUp, keeps⟩ := retains.present other stored updated
      have stays := nobodyLeft other (AList.lookup_isSome.mp (by rw [lookedUp]; rfl))
      obtain ⟨entry', lookedUp'⟩ := Option.isSome_iff_exists.mp (AList.lookup_isSome.mpr stays)
      have before := lookup_of_lookup_store admitted succeeds same lookedUp'
      refine ⟨entry, location, block, ?_, keeps.store admitted succeeds⟩
      rw [lookedUp', ← before, lookedUp]
  · obtain ⟨allocator, fresh, handle, outcome, after⟩ :=
      CacheService.store_eq_of_isOk admitted succeeds
    rw [after]
    exact retains.vacant

end Answers

theorem new_retains (platform : Platform) {geometry : Geometry} (firstPool : geometry.poolId = 0)
    (capacity : Nat) (nodeId : String) (metadata : Bool) {remoteIndex : Option RemoteIndex}
    (vacant : ∀ remote ∈ remoteIndex, remote = RemoteIndex.new) :
    Retains platform (CacheService.new geometry capacity nodeId metadata remoteIndex)
      fun _ => none where
  firstPool := firstPool
  freeNodup := List.nodup_range
  absent := fun _ _ => rfl
  present := by
    intro key bytes kept
    cases kept
  vacant := by
    intro key
    cases remoteIndex with
    | none => rfl
    | some remote =>
        rw [vacant remote rfl]
        rfl

end CmxRdma.Agent
