import CmxRdma.Agent.ByteMap
import CmxRdma.Agent.Conservation
import CmxRdma.Agent.Generations

/-!
Contract: the cache service refines the bounded byte map.

Owns: the relation between pool, block memory, index and policy on one side and
the byte map on the other, its preservation by every request, and the
refinement of whole runs.

Does not own: pools whose blocks cannot hold a header or hold more than a `u32`
counts, services with a remote index, and concurrent requests.
-/

namespace CmxRdma.Agent

open CmxRdma.BlockStore
open CmxRdma.Lib
open CmxRdma.Lib.Gather
open CmxRdma.Lib.Transition
open CmxRdma.Memory
open CmxRdma.Proto

/-- The block of a location holds what the map keeps. -/
structure Backs (platform : Platform) (geometry : Geometry) (allocator : BlockAllocator)
    (location : BlockStore.BlockLocation) (stored : Stored) : Prop where
  generationEq : location.generation = UInt64.ofNat stored.generation
  fits : BlockHeader.size + stored.bytes.length ≤ geometry.blockSize
  holds : HoldsAt platform geometry allocator location stored.bytes

/-- The service shows the map. The shadow list pairs every index entry with what
the map keeps under its key, so that index and map are two views of it. -/
structure Represents (platform : Platform) (geometry : Geometry) (capacity : Nat)
    (nodeId : String) (service : CacheService) (map : ByteMap)
    (shadow : List (PrefixHash × IndexEntry × Stored)) : Prop where
  index : service.index.Simulates capacity (RecencyMap.mapValues Prod.fst shadow)
  entries : map.entries = RecencyMap.mapValues Prod.snd shadow
  backed : ∀ key entry stored, (key, entry, stored) ∈ shadow →
    ∃ location, entry.blocks = [location] ∧
      Backs platform geometry service.allocator location stored
  exclusive : Exclusive geometry service.allocator service.index.locations
  counter : service.allocator.generation = UInt64.ofNat map.next
  standalone : service.remoteIndex = none
  node : service.nodeId = nodeId

/-- What the refinement asks of the pool and the index. -/
structure Serviceable (geometry : Geometry) (capacity : Nat) : Prop where
  roomy : 24 ≤ geometry.blockSize
  narrow : geometry.blockSize < 2 ^ 32
  few : geometry.totalBlocks ≤ 2 ^ 32
  firstPool : geometry.poolId = 0
  positive : 1 ≤ capacity

section Steps

variable {platform : Platform} {geometry : Geometry} {capacity : Nat} {nodeId : String}
  {service service' : CacheService} {map : ByteMap}
  {shadow : List (PrefixHash × IndexEntry × Stored)}

theorem Represents.find_index
    (represents : Represents platform geometry capacity nodeId service map shadow)
    (key : PrefixHash) :
    service.index.map.lookup key = (RecencyMap.find key shadow).map Prod.fst := by
  rw [represents.index.refines.find, RecencyMap.find_mapValues]

theorem Represents.find_map
    (represents : Represents platform geometry capacity nodeId service map shadow)
    (key : PrefixHash) : map.find key = (RecencyMap.find key shadow).map Prod.snd := by
  rw [ByteMap.find, represents.entries, RecencyMap.find_mapValues]

/-- An entry of the shadow is in the index, so its location is placed and its
block is not free. -/
theorem Represents.mem_locations
    (represents : Represents platform geometry capacity nodeId service map shadow)
    {key : PrefixHash} {entry : IndexEntry} {stored : Stored}
    {location : BlockStore.BlockLocation} (member : (key, entry, stored) ∈ shadow)
    (isBlock : location ∈ entry.blocks) : location ∈ service.index.locations := by
  have nodup : (shadow.map Prod.fst).Nodup := by
    rw [← RecencyMap.keys_mapValues Prod.fst]
    exact represents.index.refines.nodup
  refine mem_gather.mpr ⟨key, entry, ?_, isBlock⟩
  rw [represents.find_index, RecencyMap.find_eq_some_of_mem nodup member]
  rfl

theorem Represents.entry
    (represents : Represents platform geometry capacity nodeId service map shadow)
    {key : PrefixHash} {entry : IndexEntry} {stored : Stored}
    (member : (key, entry, stored) ∈ shadow) :
    ∃ location, entry.blocks = [location] ∧ Placed geometry location ∧
      Backs platform geometry service.allocator location stored := by
  obtain ⟨location, single, backs⟩ := represents.backed key entry stored member
  have indexed := represents.mem_locations member (by simp [single] : location ∈ entry.blocks)
  exact ⟨location, single, represents.exclusive.placed location indexed, backs⟩

/-! ## Lookups -/

/-- A lookup of one key, whatever the service counts on the way. -/
theorem Represents.lookup
    (represents : Represents platform geometry capacity nodeId service map shadow)
    (key : PrefixHash) (sameAllocator : service'.allocator = service.allocator)
    (looked : service'.index = (service.index.lookup key).1)
    (sameRemote : service'.remoteIndex = service.remoteIndex)
    (sameNode : service'.nodeId = service.nodeId) :
    Represents platform geometry capacity nodeId service' (map.bring key)
      (RecencyMap.bring key shadow) where
  index := by
    rw [looked, ← RecencyMap.bring_mapValues]
    exact (BlockIndex.step_simulates (.lookup key) represents.index).2
  entries := by
    rw [← RecencyMap.bring_mapValues, ← represents.entries, ByteMap.bring_entries]
  backed := by
    intro other entry stored member
    rw [sameAllocator]
    exact represents.backed other entry stored (RecencyMap.mem_of_mem_bring member)
  exclusive := by
    have sameLocations : service'.index.locations = service.index.locations := by
      rw [looked, BlockIndex.locations, BlockIndex.lookup_map]
      rfl
    rw [sameAllocator, sameLocations]
    exact represents.exclusive
  counter := by
    rw [sameAllocator]
    exact represents.counter
  standalone := sameRemote.trans represents.standalone
  node := sameNode.trans represents.node

/-- The location of a hit as the map shows it. -/
theorem Represents.shown
    (represents : Represents platform geometry capacity nodeId service map shadow)
    {key : PrefixHash} {entry : IndexEntry} {stored : Stored}
    (member : (key, entry, stored) ∈ shadow) :
    (entry.blocks.map service.protoLocation).map withoutOffset =
      [ByteMap.shownLocation nodeId (UInt64.ofNat geometry.blockSize) stored] := by
  obtain ⟨location, single, placed, backs⟩ := represents.entry member
  rw [single]
  simp only [List.map_cons, List.map_nil, CacheService.protoLocation, withoutOffset,
    ByteMap.shownLocation, represents.node, backs.generationEq, placed.blockSize_eq]

/-- What a lookup of one key finds on both sides. -/
theorem Represents.lookup_cases
    (represents : Represents platform geometry capacity nodeId service map shadow)
    (key : PrefixHash) :
    (∃ entry stored, (key, entry, stored) ∈ shadow ∧ (service.index.lookup key).2 = some entry ∧
        map.find key = some stored) ∨
      (service.index.lookup key).2 = none ∧ map.find key = none := by
  rw [service.index.lookup_snd, represents.find_index, represents.find_map]
  cases found : RecencyMap.find key shadow with
  | none => exact Or.inr ⟨rfl, rfl⟩
  | some pair => exact Or.inl ⟨pair.1, pair.2, RecencyMap.mem_of_find_eq_some found, rfl, rfl⟩

/-- The service shows the map through some shadow. -/
def ShowsMap (platform : Platform) (geometry : Geometry) (capacity : Nat) (nodeId : String)
    (service : CacheService) (map : ByteMap) : Prop :=
  ∃ shadow, Represents platform geometry capacity nodeId service map shadow

theorem ShowsMap.lookup (shows : ShowsMap platform geometry capacity nodeId service map)
    (request : LookupRequest) :
    let answer := map.lookup platform nodeId (UInt64.ofNat geometry.blockSize) request
    ShowsMap platform geometry capacity nodeId (service.lookup platform request).1 answer.1 ∧
      Response.withoutOffsets (.lookup (service.lookup platform request).2) =
        .lookup answer.2 := by
  obtain ⟨shadow, represents⟩ := shows
  unfold CacheService.lookup ByteMap.lookup
  cases parsed : parsePrefixHash request.prefixHash with
  | error status => exact ⟨⟨shadow, represents⟩, rfl⟩
  | ok prefixHash =>
      have cases := represents.lookup_cases (compositeKey platform request.modelId prefixHash)
      rcases outcome : service.index.lookup (compositeKey platform request.modelId prefixHash)
        with ⟨index, hit⟩
      simp only [outcome] at cases ⊢
      rcases cases with ⟨entry, stored, member, rfl, found⟩ | ⟨rfl, missing⟩
      · rw [found]
        refine ⟨⟨_, represents.lookup _ rfl (by rw [outcome]; rfl) rfl rfl⟩, ?_⟩
        simp only [Response.withoutOffsets, Except.map, represents.shown member]
      · rw [missing]
        have noRemote : CacheService.remoteFirst { service with index := index }
            (compositeKey platform request.modelId prefixHash) = none := by
          simp only [CacheService.remoteFirst, represents.standalone]
        simp only [noRemote]
        refine ⟨⟨_, represents.lookup _ rfl (by rw [outcome]; rfl) rfl rfl⟩, rfl⟩

theorem ShowsMap.batchLookupFrom
    (shows : ShowsMap platform geometry capacity nodeId service map) (modelId : String)
    (hashes : List (List UInt8)) (found : List Bool) (blocks : List Proto.BlockLocation) :
    let answer := ByteMap.batchLookupFrom platform nodeId (UInt64.ofNat geometry.blockSize) modelId
      map hashes found (blocks.map withoutOffset)
    let reply := CacheService.batchLookupFrom platform modelId service hashes found blocks
    ShowsMap platform geometry capacity nodeId reply.1 answer.1 ∧
      Response.withoutOffsets (.batchLookup reply.2) = .batchLookup answer.2 := by
  induction hashes generalizing service map found blocks with
  | nil => exact ⟨shows, rfl⟩
  | cons rawHash rest inductionHypothesis =>
      obtain ⟨shadow, represents⟩ := shows
      unfold CacheService.batchLookupFrom ByteMap.batchLookupFrom
      cases parsed : parsePrefixHash rawHash with
      | error status => exact ⟨⟨shadow, represents⟩, rfl⟩
      | ok prefixHash =>
          have cases := represents.lookup_cases (compositeKey platform modelId prefixHash)
          rcases outcome : service.index.lookup (compositeKey platform modelId prefixHash)
            with ⟨index, hit⟩
          simp only [outcome] at cases ⊢
          rcases cases with ⟨entry, stored, member, rfl, present⟩ | ⟨rfl, missing⟩
          · have brought := @Represents.lookup platform geometry capacity nodeId service
              { service with index := index }.countHit map shadow represents
              (compositeKey platform modelId prefixHash) rfl (by rw [outcome]; rfl) rfl rfl
            have rest := inductionHypothesis ⟨_, brought⟩ (found ++ [true])
              (blocks ++ entry.blocks.map service.protoLocation)
            rw [List.map_append, represents.shown member] at rest
            rw [present]
            exact rest
          · have brought := @Represents.lookup platform geometry capacity nodeId service
              { service with index := index }.countMiss map shadow represents
              (compositeKey platform modelId prefixHash) rfl (by rw [outcome]; rfl) rfl rfl
            rw [missing]
            have rest := inductionHypothesis ⟨_, brought⟩ (found ++ [false]) blocks
            simpa using rest

/-! ## Get -/

/-- A backed block reads back as the stored bytes: no checksum failure, no
panic. -/
theorem Represents.streamBlocks (serviceable : Serviceable geometry capacity)
    (represents : Represents platform geometry capacity nodeId service map shadow)
    {key : PrefixHash} {entry : IndexEntry} {stored : Stored}
    (member : (key, entry, stored) ∈ shadow) :
    CacheService.getTask platform service.allocator entry =
      [.ok ⟨some (.header ⟨UInt64.ofNat geometry.blockSize, 1, UInt64.ofNat stored.generation⟩)⟩,
        .ok ⟨some (.data stored.bytes)⟩] := by
  obtain ⟨location, single, placed, backs⟩ := represents.entry member
  have geometryEq := represents.exclusive.geometryEq
  have fits := backs.fits
  have narrow := serviceable.narrow
  have readBack : service.allocator.readVerified platform (CacheService.localHandle location) =
      .ok (some stored.bytes) := by
    refine BlockAllocator.readVerified_of_holds (geometryEq ▸ backs.holds) (geometryEq ▸ fits) ?_ ?_
      (by omega)
    · rw [geometryEq, serviceable.firstPool]
      rfl
    · rw [geometryEq]
      exact placed.offsetEq
  simp only [CacheService.getTask, CacheService.getHeader, single, CacheService.streamBlocks,
    readBack, List.map_cons, List.map_nil, List.sum_cons, List.sum_nil,
    placed.blockSize_eq, List.length_singleton,
    List.head?_cons, Option.map_some, Option.getD_some, backs.generationEq, UInt64.add_zero]
  rfl

theorem ShowsMap.get (serviceable : Serviceable geometry capacity)
    (shows : ShowsMap platform geometry capacity nodeId service map) (request : GetRequest) :
    let answer := map.get platform (UInt64.ofNat geometry.blockSize) request
    ShowsMap platform geometry capacity nodeId (service.get platform request).1 answer.1 ∧
      (service.get platform request).2 = answer.2 := by
  obtain ⟨shadow, represents⟩ := shows
  unfold CacheService.get ByteMap.get
  cases parsed : parsePrefixHash request.prefixHash with
  | error status => exact ⟨⟨shadow, represents⟩, rfl⟩
  | ok prefixHash =>
      have cases := represents.lookup_cases (compositeKey platform request.modelId prefixHash)
      rcases outcome : service.index.lookup (compositeKey platform request.modelId prefixHash)
        with ⟨index, hit⟩
      simp only [outcome] at cases ⊢
      rcases cases with ⟨entry, stored, member, rfl, found⟩ | ⟨rfl, missing⟩
      · rw [found]
        refine ⟨⟨_, represents.lookup _ rfl (by rw [outcome]; rfl) rfl rfl⟩, ?_⟩
        exact congrArg Except.ok (represents.streamBlocks serviceable member)
      · rw [missing]
        exact ⟨⟨_, represents.lookup _ rfl (by rw [outcome]; rfl) rfl rfl⟩, rfl⟩

/-! ## Delete -/

/-- The index and the map without a key, over an allocator that kept every byte. -/
theorem Represents.remove
    (represents : Represents platform geometry capacity nodeId service map shadow)
    {key : PrefixHash} {index : BlockIndex} {found : Option IndexEntry}
    {allocator : BlockAllocator} (removed : service.index.remove key = (index, found))
    (sameBytes : ∀ location data, HoldsAt platform geometry service.allocator location data →
      HoldsAt platform geometry allocator location data)
    (sameCounter : allocator.generation = service.allocator.generation)
    (exclusive : Exclusive geometry allocator index.locations) :
    Represents platform geometry capacity nodeId
      { service with index := index, allocator := allocator } (map.erase key)
      (RecencyMap.erase key shadow) where
  index := by
    have stepped := (BlockIndex.step_simulates (.remove key) represents.index).2
    simp only [BlockIndex.step, removed, BlockIndex.idealStep, RecencyMap.erase_mapValues]
      at stepped
    exact stepped
  entries := by
    rw [ByteMap.erase_entries, represents.entries, RecencyMap.erase_mapValues]
  backed := by
    intro other entry stored member
    obtain ⟨location, single, backs⟩ :=
      represents.backed other entry stored (RecencyMap.mem_of_mem_erase member)
    exact ⟨location, single, backs.generationEq, backs.fits, sameBytes _ _ backs.holds⟩
  exclusive := exclusive
  counter := sameCounter.trans represents.counter
  standalone := represents.standalone
  node := represents.node

theorem ShowsMap.delete (serviceable : Serviceable geometry capacity)
    (shows : ShowsMap platform geometry capacity nodeId service map) (request : DeleteRequest) :
    ShowsMap platform geometry capacity nodeId (service.delete request).1
        (map.delete request).1 ∧
      (service.delete request).2 = (map.delete request).2 := by
  obtain ⟨shadow, represents⟩ := shows
  have exclusive : Exclusive geometry (service.delete request).1.allocator
      (service.delete request).1.index.locations :=
    represents.exclusive.run_react serviceable.few platform [.request (.delete request)]
  unfold ByteMap.delete
  cases parsed : parsePrefixHash request.prefixHash with
  | error status =>
      rw [CacheService.delete_of_rejected parsed]
      exact ⟨⟨shadow, represents⟩, rfl⟩
  | ok prefixHash =>
      have removedEntry := service.index.remove_snd prefixHash
      rcases removed : service.index.remove prefixHash with ⟨index, found⟩
      rw [represents.find_index, removed] at removedEntry
      simp only [represents.find_map] at removedEntry ⊢
      cases inShadow : RecencyMap.find prefixHash shadow with
      | none =>
          obtain rfl : found = none := removedEntry.trans (by rw [inShadow]; rfl)
          rw [CacheService.delete_of_absent parsed removed] at exclusive ⊢
          exact ⟨⟨_, represents.remove removed (fun _ _ holds => holds) rfl exclusive⟩, rfl⟩
      | some pair =>
          obtain rfl : found = some pair.1 := removedEntry.trans (by rw [inShadow]; rfl)
          have member : (prefixHash, pair.1, pair.2) ∈ shadow :=
            RecencyMap.mem_of_find_eq_some inShadow
          obtain ⟨location, single, placed, -⟩ := represents.entry member
          have geometryEq := represents.exclusive.geometryEq
          obtain ⟨pool, -, freed⟩ := @BlockAllocator.exists_deallocate service.allocator
            (CacheService.localHandle location)
            (by rw [geometryEq, serviceable.firstPool]; rfl) (geometryEq ▸ placed.inPool)
          rw [CacheService.delete_of_freed parsed removed single freed] at exclusive ⊢
          exact ⟨⟨_, represents.remove removed (fun _ _ holds => holds.deallocate freed) rfl
            exclusive⟩, rfl⟩

/-! ## Store -/

theorem exists_chunks_of_collectData {capacity : Nat} {data bytes : List UInt8}
    {rest : StoreStream}
    (collected : CacheService.collectData platform capacity data rest = .ok bytes) :
    ∃ chunks : List (Option (List UInt8)),
      rest = chunks.map (fun chunk => .ok ⟨chunk.map StorePayload.data⟩) ∧
        bytes = data ++ (chunks.map fun chunk => chunk.getD []).flatten := by
  induction rest generalizing capacity data with
  | nil =>
      refine ⟨[], rfl, ?_⟩
      cases collected
      simp
  | cons message rest inductionHypothesis =>
      rcases message with status | ⟨⟨⟩ | header | chunk⟩
      · cases collected
      · obtain ⟨chunks, rfl, rfl⟩ := inductionHypothesis collected
        exact ⟨none :: chunks, rfl, by simp⟩
      · cases collected
      · rw [CacheService.collectData] at collected
        cases reserved : CacheService.reserve platform capacity (data.length + chunk.length) with
        | error failure =>
            rw [reserved] at collected
            cases collected
        | ok grown =>
            rw [reserved] at collected
            obtain ⟨chunks, rfl, rfl⟩ := inductionHypothesis collected
            exact ⟨some chunk :: chunks, rfl, by simp⟩

theorem carries_of_storeAdmit {stream : StoreStream} {key : PrefixHash} {bytes : List UInt8}
    (admitted : service.storeAdmit platform stream = .ok (key, bytes)) :
    ∃ header prefixHash, ByteMap.Carries stream header bytes ∧
      parsePrefixHash header.prefixHash = .ok prefixHash ∧
      key = compositeKey platform header.modelId prefixHash := by
  obtain ⟨header, rest, prefixHash, read, parsed, -, collected, rfl⟩ :=
    CacheService.storeAdmit_eq_ok admitted
  obtain ⟨chunks, rfl, rfl⟩ := exists_chunks_of_collectData collected
  refine ⟨header, prefixHash, ⟨chunks, ?_, rfl⟩, parsed, rfl⟩
  exact CacheService.readHeader_eq_ok read

/-- A written block: the entry is put on both sides, and the bytes of every
other entry stay where they are. -/
theorem Represents.put (serviceable : Serviceable geometry capacity)
    (represents : Represents platform geometry capacity nodeId service map shadow)
    {key : PrefixHash} {bytes : List UInt8} {allocator : BlockAllocator}
    {location : BlockStore.BlockLocation} {handle : BlockHandle} (now : UInt64)
    (outcome : service.allocator.allocateAndWrite platform bytes =
      (allocator, .ok (some (location, handle))))
    (exclusive : Exclusive geometry allocator
      (service.index.insert key [location] now).1.locations) :
    Represents platform geometry capacity nodeId
      ({ service with allocator := allocator }.storeCommit key location now).1
      (map.put capacity key bytes)
      (RecencyMap.put capacity key (⟨[location], now⟩, ⟨bytes, map.next⟩) shadow).2 := by
  have written :=
    written_of_allocateAndWrite serviceable.few represents.exclusive.geometryEq outcome
  have capacityEq : max 1 capacity = capacity := max_eq_right serviceable.positive
  refine ⟨?_, ?_, ?_, exclusive, ?_, represents.standalone, represents.node⟩
  · have stepped :=
      (BlockIndex.step_simulates (.insert key [location] now) represents.index).2
    have viewed := RecencyMap.put_mapValues Prod.fst capacity key
      ((⟨[location], now⟩, ⟨bytes, map.next⟩) : IndexEntry × Stored) shadow
    simp only [BlockIndex.step, BlockIndex.idealStep, capacityEq, viewed] at stepped
    exact stepped
  · have viewed := RecencyMap.put_mapValues Prod.snd capacity key
      ((⟨[location], now⟩, ⟨bytes, map.next⟩) : IndexEntry × Stored) shadow
    rw [ByteMap.put_entries, represents.entries, viewed]
  · intro other entry stored member
    rcases RecencyMap.mem_of_mem_put member with new | old
    · cases new
      refine ⟨location, rfl, ?_, written.fits, written.holds⟩
      rw [written.generationEq, represents.counter]
    · obtain ⟨kept, single, backs⟩ := represents.backed other entry stored old
      refine ⟨kept, single, backs.generationEq, backs.fits, ?_⟩
      have located := represents.mem_locations old (by simp [single] : kept ∈ entry.blocks)
      exact written.frame kept stored.bytes backs.fits
        (written.apart represents.exclusive located) backs.holds
  · rw [CacheService.storeCommit]
    show allocator.generation = UInt64.ofNat (map.next + 1)
    rw [written.counter, represents.counter]
    simp

theorem ShowsMap.store (serviceable : Serviceable geometry capacity)
    (shows : ShowsMap platform geometry capacity nodeId service map) (now : UInt64)
    (stream : StoreStream) :
    ∃ map', ByteMap.Step platform nodeId (UInt64.ofNat geometry.blockSize) capacity map
        (.request (.store now stream)) map'
        (some (.store (service.store platform now stream).2)) ∧
      ShowsMap platform geometry capacity nodeId (service.store platform now stream).1 map' := by
  obtain ⟨shadow, represents⟩ := shows
  have exclusive : Exclusive geometry (service.store platform now stream).1.allocator
      (service.store platform now stream).1.index.locations :=
    represents.exclusive.run_react serviceable.few platform [.request (.store now stream)]
  cases admitted : service.storeAdmit platform stream with
  | error failure =>
      rw [CacheService.store_of_not_admitted admitted]
      exact ⟨map, .storeFails map now stream failure, shadow, represents⟩
  | ok pair =>
      obtain ⟨key, bytes⟩ := pair
      rcases outcome : service.allocator.allocateAndWrite platform bytes with ⟨allocator, result⟩
      rcases result with panic | refused | ⟨location, handle⟩
      · -- a block that holds a header is written without a panic
        have cramped := (BlockAllocator.allocateAndWrite_eq_error outcome).1
        rw [represents.exclusive.geometryEq] at cramped
        exact absurd serviceable.roomy (Nat.not_le.mpr cramped)
      · rw [CacheService.store_of_refused admitted outcome]
        exact ⟨map, .storeFails map now stream _, shadow, represents⟩
      · obtain ⟨header, prefixHash, carries, parsed, rfl⟩ := carries_of_storeAdmit admitted
        rw [CacheService.store_of_written admitted outcome] at exclusive ⊢
        have generationEq : location.generation = UInt64.ofNat map.next := by
          rw [(written_of_allocateAndWrite serviceable.few represents.exclusive.geometryEq
            outcome).generationEq, represents.counter]
        refine ⟨_, ?_, _, represents.put serviceable now outcome exclusive⟩
        simp only [CacheService.storeCommit, generationEq]
        exact .storePuts map now carries parsed

/-- Every event of the service is an event of the map. -/
theorem ShowsMap.react (serviceable : Serviceable geometry capacity)
    (shows : ShowsMap platform geometry capacity nodeId service map) (event : Event) :
    ∃ map', ByteMap.Step platform nodeId (UInt64.ofNat geometry.blockSize) capacity map event map'
        ((service.react platform event).2.map Response.withoutOffsets) ∧
      ShowsMap platform geometry capacity nodeId (service.react platform event).1 map' := by
  cases event with
  | pressure level =>
      obtain ⟨shadow, represents⟩ := shows
      exact ⟨map, .pressure map level, shadow, represents.index, represents.entries,
        represents.backed, represents.exclusive, represents.counter, represents.standalone,
        represents.node⟩
  | remote contents =>
      obtain ⟨shadow, represents⟩ := shows
      refine ⟨map, .remote map contents, shadow, represents.index, represents.entries,
        represents.backed, represents.exclusive, represents.counter, ?_, represents.node⟩
      simp only [CacheService.react, represents.standalone, Option.map_none]
  | request request =>
      cases request with
      | lookup request =>
          obtain ⟨shown, answer⟩ := shows.lookup request
          refine ⟨_, ?_, shown⟩
          show ByteMap.Step _ _ _ _ _ _ _
            (some (Response.withoutOffsets (.lookup (service.lookup platform request).2)))
          rw [answer]
          exact .lookup map request
      | batchLookup request =>
          obtain ⟨shown, answer⟩ :=
            shows.batchLookupFrom request.modelId request.prefixHashes [] []
          refine ⟨_, ?_, shown⟩
          show ByteMap.Step _ _ _ _ _ _ _ (some (Response.withoutOffsets
            (.batchLookup (CacheService.batchLookupFrom platform request.modelId service
              request.prefixHashes [] []).2)))
          rw [answer]
          exact .batchLookup map request
      | store now stream => exact shows.store serviceable now stream
      | get request =>
          obtain ⟨shown, answer⟩ := shows.get serviceable request
          refine ⟨_, ?_, shown⟩
          show ByteMap.Step _ _ _ _ _ _ _ (some (.get (service.get platform request).2))
          rw [answer]
          exact .get map request
      | delete request =>
          obtain ⟨shown, answer⟩ := shows.delete serviceable request
          refine ⟨_, ?_, shown⟩
          show ByteMap.Step _ _ _ _ _ _ _ (some (.delete (service.delete request).2))
          rw [answer]
          exact .delete map request

end Steps

theorem new_showsMap (platform : Platform) (geometry : Geometry) (capacity : Nat)
    (nodeId : String) (metadata : Bool) :
    ShowsMap platform geometry capacity nodeId
      (CacheService.new geometry capacity nodeId metadata none) ByteMap.new := by
  refine ⟨[], BlockIndex.new_simulates capacity, rfl, ?_, ?_, rfl, rfl, rfl⟩
  · intro key entry stored member
    cases member
  · exact new_exclusive geometry 0 capacity

/-- The agent refines the bounded byte map: for every sequence of events, the
answers of the service, offsets aside, are answers of the map along a run that
puts and brings and erases the same keys. -/
theorem agent_refines_byte_map (platform : Platform) (geometry : Geometry) (capacity : Nat)
    (nodeId : String) (metadata : Bool) (roomy : 24 ≤ geometry.blockSize)
    (narrow : geometry.blockSize < 2 ^ 32) (few : geometry.totalBlocks ≤ 2 ^ 32)
    (firstPool : geometry.poolId = 0) (positive : 1 ≤ capacity) (events : List Event) :
    ∃ final, Trace
      (ByteMap.Step platform nodeId (UInt64.ofNat geometry.blockSize) capacity) ByteMap.new events
      final
      ((outputs (CacheService.react platform)
        (CacheService.new geometry capacity nodeId metadata none) events).map
          (Option.map Response.withoutOffsets)) := by
  have serviceable : Serviceable geometry capacity := ⟨roomy, narrow, few, firstPool, positive⟩
  have simulates (service : CacheService) (map : ByteMap) (event : Event)
      (shows : ShowsMap platform geometry capacity nodeId service map) :=
    shows.react serviceable event
  obtain ⟨final, trace, -⟩ := trace_of_simulation simulates
    (new_showsMap platform geometry capacity nodeId metadata) events
  exact ⟨final, trace⟩

/-- On a pool of two blocks a key is stored, read, overwritten and read again;
the third Store finds the pool exhausted. -/
theorem agent_refines_byte_map_two_blocks :
    let store (byte : UInt8) : Event := .request (.store 0
      (storeMessages ⟨List.replicate 16 1, 1, ""⟩ [[byte]]))
    let get : Event := .request (.get ⟨List.replicate 16 1, ""⟩)
    let reply (generation : UInt64) (byte : UInt8) : Option Response :=
      some (.get (.ok [.ok ⟨some (.header ⟨32, 1, generation⟩)⟩, .ok ⟨some (.data [byte])⟩]))
    let events := [store 7, get, store 8, get, store 9]
    let replies := (outputs (CacheService.react Platform.release)
      (CacheService.new Geometry.twoBlocks 2 "node" false none) events).map
        (Option.map Response.withoutOffsets)
    replies = [some (.store (.ok ⟨true, "", 1⟩)), reply 1 7, some (.store (.ok ⟨true, "", 2⟩)),
        reply 2 8,
        some (.store (.error (.status (resourceExhausted "memory pool exhausted"))))] ∧
      ∃ final, Trace (ByteMap.Step Platform.release "node" 32 2) ByteMap.new events final
        replies := by
  intro store get reply events replies
  exact ⟨by decide +kernel, agent_refines_byte_map Platform.release Geometry.twoBlocks 2 "node"
    false (by decide) (by decide) (by decide) (by decide) (by decide) events⟩

end CmxRdma.Agent
