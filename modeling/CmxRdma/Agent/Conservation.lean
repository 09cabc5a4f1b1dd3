import CmxRdma.Agent.Ownership
import CmxRdma.BlockStore.IndexRefinement

/-!
Contract: block conservation when requests are handled one at a time.

Owns: which events lose a block for good, the balance of free, indexed and lost
blocks along every run, the exact runs in which nothing is lost, and the
smallest run in which something is.

Does not own: concurrent requests, which can only lose more; see `Ownership`
for what they cannot do.
-/

namespace CmxRdma.Agent

open CmxRdma.BlockStore
open CmxRdma.Lib.Gather
open CmxRdma.Lib.Transition
open CmxRdma.Memory
open CmxRdma.Proto

/-! ## What requests do to the index and the allocator -/

/-- The index after hits and misses on some keys. -/
def Touched (index index' : BlockIndex) : Prop :=
  ∃ keys : List PrefixHash, index' = keys.foldl (fun index key => (index.lookup key).1) index

theorem Touched.refl (index : BlockIndex) : Touched index index := ⟨[], rfl⟩

theorem Touched.of_lookup {index next final : BlockIndex} {key : PrefixHash}
    {found : Option IndexEntry} (outcome : index.lookup key = (next, found))
    (touched : Touched next final) : Touched index final := by
  obtain ⟨keys, rfl⟩ := touched
  refine ⟨key :: keys, ?_⟩
  rw [List.foldl_cons, outcome]

theorem Touched.map_eq {index index' : BlockIndex} (touched : Touched index index') :
    index'.map = index.map := by
  obtain ⟨keys, rfl⟩ := touched
  induction keys generalizing index with
  | nil => rfl
  | cons key rest inductionHypothesis =>
      exact inductionHypothesis.trans (index.lookup_map key)

theorem Touched.tracks {index index' : BlockIndex} (touched : Touched index index')
    (tracks : index.Tracks) : index'.Tracks ∧ index'.capacity = index.capacity := by
  obtain ⟨keys, rfl⟩ := touched
  induction keys generalizing index with
  | nil => exact ⟨tracks, rfl⟩
  | cons key rest inductionHypothesis =>
      obtain ⟨stillTracks, sameCapacity⟩ := tracks.step (.lookup key)
      obtain ⟨atEnd, capacityAtEnd⟩ := inductionHypothesis stillTracks
      exact ⟨atEnd, capacityAtEnd.trans sameCapacity⟩

section Requests

variable {platform : Platform} {service : CacheService}

theorem lookup_touched (request : LookupRequest) :
    (service.lookup platform request).1.allocator = service.allocator ∧
      Touched service.index (service.lookup platform request).1.index := by
  unfold CacheService.lookup
  split
  · exact ⟨rfl, Touched.refl _⟩
  · rename_i prefixHash parsed
    dsimp only
    split
    · rename_i index entry outcome
      exact ⟨rfl, Touched.of_lookup outcome (Touched.refl _)⟩
    · rename_i index outcome
      split <;> exact ⟨rfl, Touched.of_lookup outcome (Touched.refl _)⟩

theorem batchLookupFrom_touched {modelId : String} (hashes : List (List UInt8))
    (found : List Bool) (blocks : List Proto.BlockLocation) :
    (CacheService.batchLookupFrom platform modelId service hashes found blocks).1.allocator =
        service.allocator ∧
      Touched service.index
        (CacheService.batchLookupFrom platform modelId service hashes found blocks).1.index := by
  induction hashes generalizing service found blocks with
  | nil => exact ⟨rfl, Touched.refl _⟩
  | cons rawHash rest inductionHypothesis =>
      unfold CacheService.batchLookupFrom
      split
      · exact ⟨rfl, Touched.refl _⟩
      · rename_i prefixHash parsed
        split
        all_goals
          rename_i outcome
          exact ⟨(inductionHypothesis _ _).1, Touched.of_lookup outcome (inductionHypothesis _ _).2⟩

theorem get_touched (request : GetRequest) :
    (service.get platform request).1.allocator = service.allocator ∧
      Touched service.index (service.get platform request).1.index := by
  unfold CacheService.get
  split
  · exact ⟨rfl, Touched.refl _⟩
  · rename_i prefixHash parsed
    split
    all_goals
      rename_i outcome
      exact ⟨rfl, Touched.of_lookup outcome (Touched.refl _)⟩

theorem mem_of_removed {index index' : BlockIndex} {key : PrefixHash} {entry : IndexEntry}
    (removed : index.remove key = (index', some entry)) : key ∈ index.map := by
  have removedEntry := index.remove_snd key
  rw [removed] at removedEntry
  rw [← AList.lookup_isSome, ← removedEntry]
  rfl

end Requests

/-! ## Events that lose a block -/

/-- An admitted Store loses a block when it gets one and replaces or evicts an
entry, whose block nobody frees, or when the write panics on a block too small
for a header after taking it. -/
def StoreLeaks (platform : Platform) (service : CacheService) (key : PrefixHash)
    (data : List UInt8) : Prop :=
  service.allocator.pool.freeList ≠ [] ∧
    (BlockHeader.size + data.length ≤ service.allocator.pool.geometry.blockSize ∧
        (key ∈ service.index.map ∨ max 1 service.index.capacity ≤ service.index.len) ∨
      service.allocator.pool.geometry.blockSize < BlockHeader.size ∧
        platform.overflowChecks = false ∧
        data.length ≤ service.allocator.pool.geometry.blockSize + usizeBound - BlockHeader.size)

/-- The events that lose a block: such a Store, and a Delete that drops an entry
of a pool whose id is not the one it frees with. -/
def Leaks (platform : Platform) (service : CacheService) : Event → Prop
  | .request (.store _ stream) =>
      match service.storeAdmit platform stream with
      | .error _ => False
      | .ok (key, data) => StoreLeaks platform service key data
  | .request (.delete request) =>
      match parsePrefixHash request.prefixHash with
      | .error _ => False
      | .ok prefixHash =>
          prefixHash ∈ service.index.map ∧ service.allocator.pool.geometry.poolId ≠ 0
  | _ => False

/-- The books of an agent: one block per entry, and every block of the pool is
free, indexed or one of the `lost`. -/
structure Accounted (geometry : Geometry) (capacity : Nat) (service : CacheService) (lost : Nat) :
    Prop where
  geometryEq : service.allocator.pool.geometry = geometry
  capacityEq : service.index.capacity = capacity
  tracks : service.index.Tracks
  single : ∀ key entry, service.index.map.lookup key = some entry →
    ∃ location, entry.blocks = [location] ∧ location.blockIndex.toNat < geometry.totalBlocks
  balance : service.allocator.pool.freeList.length + service.index.len + lost =
    geometry.totalBlocks

section Steps

variable {platform : Platform} {geometry : Geometry} {capacity : Nat} {service : CacheService}
  {lost : Nat}

theorem Accounted.card_locations (accounted : Accounted geometry capacity service lost) :
    Multiset.card service.index.locations = service.index.len := by
  apply card_gather
  intro key entry found
  obtain ⟨location, single, -⟩ := accounted.single key entry found
  rw [single]
  rfl

theorem Accounted.touched {after : CacheService}
    (accounted : Accounted geometry capacity service lost)
    (touched : after.allocator = service.allocator ∧ Touched service.index after.index) :
    Accounted geometry capacity after lost := by
  obtain ⟨sameAllocator, touches⟩ := touched
  obtain ⟨tracks, sameCapacity⟩ := touches.tracks accounted.tracks
  have sameMap := touches.map_eq
  refine ⟨by rw [sameAllocator]; exact accounted.geometryEq,
    sameCapacity.trans accounted.capacityEq, tracks, ?_, ?_⟩
  · rw [sameMap]
    exact accounted.single
  · rw [sameAllocator, BlockIndex.len, sameMap]
    exact accounted.balance

/-- A Store that got a block: the index grows by it, or an entry's block is
lost. -/
theorem Accounted.commit {allocator : BlockAllocator} {data : List UInt8}
    {location : BlockStore.BlockLocation} {handle : BlockHandle}
    (accounted : Accounted geometry capacity service lost) (key : PrefixHash) (now : UInt64)
    (outcome : service.allocator.allocateAndWrite platform data =
      (allocator, .ok (some (location, handle)))) :
    Accounted geometry capacity
      ({ service with allocator := allocator }.storeCommit key location now).1
      (if key ∈ service.index.map ∨ max 1 service.index.capacity ≤ service.index.len
        then lost + 1 else lost) := by
  obtain ⟨block, freeEq, -, rfl, geometryKept, -⟩ :=
    BlockAllocator.allocateAndWrite_eq_some outcome
  have inside : block < service.allocator.pool.geometry.totalBlocks :=
    service.allocator.pool.freeBelow block (by simp [freeEq])
  have freeLength := congrArg List.length freeEq
  rw [List.length_append, List.length_singleton] at freeLength
  obtain ⟨tracks, sameCapacity⟩ :=
    accounted.tracks.step (.insert key [service.allocator.locationFor block] now)
  refine ⟨geometryKept.trans accounted.geometryEq, sameCapacity.trans accounted.capacityEq, tracks,
    ?_, ?_⟩
  · intro other entry found
    rcases BlockIndex.lookup_of_lookup_insert found with ⟨-, rfl⟩ | old
    · refine ⟨_, rfl, ?_⟩
      rw [← accounted.geometryEq]
      refine lt_of_le_of_lt ?_ inside
      simp only [BlockAllocator.locationFor, UInt32.toNat_ofNat']
      exact Nat.mod_le _ _
    · exact accounted.single other entry old
  · have inserted := accounted.tracks.len_insert key [service.allocator.locationFor block] now
    have balance := accounted.balance
    show allocator.pool.freeList.length +
      (service.index.insert key [service.allocator.locationFor block] now).1.len + _ = _
    rw [inserted]
    split
    · omega
    · omega

/-- A write that panics loses the block it took, if it took one. -/
theorem Accounted.store_of_panic (accounted : Accounted geometry capacity service lost)
    {now : UInt64} {stream : StoreStream} {key : PrefixHash} {data : List UInt8}
    {allocator : BlockAllocator} {panic : Panic}
    (admitted : service.storeAdmit platform stream = .ok (key, data))
    (outcome : service.allocator.allocateAndWrite platform data = (allocator, .error panic)) :
    ∃ more, Accounted geometry capacity (service.store platform now stream).1 (lost + more) ∧
      (more = 0 ↔ ¬ Leaks platform service (.request (.store now stream))) := by
  rw [CacheService.store_of_panic admitted outcome]
  simp only [Leaks, admitted]
  obtain ⟨cramped, ⟨checked, rfl⟩ | ⟨unchecked, wrapped, block, freeEq, geometryKept, -⟩⟩ :=
    BlockAllocator.allocateAndWrite_eq_error outcome
  · refine ⟨0, accounted, iff_of_true rfl ?_⟩
    rintro ⟨-, ⟨fits, -⟩ | ⟨-, unchecked, -⟩⟩
    · omega
    · exact Bool.noConfusion (checked.symm.trans unchecked)
  · refine ⟨1, ⟨geometryKept.trans accounted.geometryEq, accounted.capacityEq,
      accounted.tracks, accounted.single, ?_⟩, iff_of_false Nat.one_ne_zero (not_not.mpr ⟨?_, ?_⟩)⟩
    · have freeLength := congrArg List.length freeEq
      rw [List.length_append, List.length_singleton] at freeLength
      have balance := accounted.balance
      show allocator.pool.freeList.length + service.index.len + (lost + 1) = _
      omega
    · simp [freeEq]
    · exact Or.inr ⟨cramped, unchecked, wrapped⟩

/-- A write that is refused loses nothing. -/
theorem Accounted.store_of_refused (accounted : Accounted geometry capacity service lost)
    {now : UInt64} {stream : StoreStream} {key : PrefixHash} {data : List UInt8}
    {allocator : BlockAllocator}
    (admitted : service.storeAdmit platform stream = .ok (key, data))
    (outcome : service.allocator.allocateAndWrite platform data = (allocator, .ok none)) :
    ∃ more, Accounted geometry capacity (service.store platform now stream).1 (lost + more) ∧
      (more = 0 ↔ ¬ Leaks platform service (.request (.store now stream))) := by
  rw [CacheService.store_of_refused admitted outcome]
  simp only [Leaks, admitted]
  refine ⟨0, accounted, iff_of_true rfl ?_⟩
  rintro ⟨available, ⟨fits, -⟩ | ⟨cramped, unchecked, wrapped⟩⟩
  · rcases (BlockAllocator.allocateAndWrite_eq_none outcome).2 with tooLarge | exhausted
    · omega
    · exact available exhausted
  · obtain ⟨allocator', panic, block, panicked, -⟩ :=
      BlockAllocator.exists_allocateAndWrite_cramped cramped unchecked wrapped available
    rw [outcome] at panicked
    cases panicked

/-- A written block is lost exactly when its insert replaces or evicts another. -/
theorem Accounted.store_of_written (accounted : Accounted geometry capacity service lost)
    {now : UInt64} {stream : StoreStream} {key : PrefixHash} {data : List UInt8}
    {allocator : BlockAllocator} {location : BlockStore.BlockLocation} {handle : BlockHandle}
    (admitted : service.storeAdmit platform stream = .ok (key, data))
    (outcome : service.allocator.allocateAndWrite platform data =
      (allocator, .ok (some (location, handle)))) :
    ∃ more, Accounted geometry capacity (service.store platform now stream).1 (lost + more) ∧
      (more = 0 ↔ ¬ Leaks platform service (.request (.store now stream))) := by
  rw [CacheService.store_of_written admitted outcome]
  simp only [Leaks, admitted]
  obtain ⟨block, freeEq, fits, -⟩ := BlockAllocator.allocateAndWrite_eq_some outcome
  have committed := accounted.commit key now outcome
  by_cases replaces : key ∈ service.index.map ∨
      max 1 service.index.capacity ≤ service.index.len
  · rw [if_pos replaces] at committed
    refine ⟨1, committed, iff_of_false Nat.one_ne_zero (not_not.mpr ⟨?_, ?_⟩)⟩
    · simp [freeEq]
    · exact Or.inl ⟨fits, replaces⟩
  · rw [if_neg replaces] at committed
    refine ⟨0, committed, iff_of_true rfl ?_⟩
    rintro ⟨-, ⟨-, again⟩ | ⟨cramped, -⟩⟩
    · exact replaces again
    · omega

theorem Accounted.store (accounted : Accounted geometry capacity service lost) (now : UInt64)
    (stream : StoreStream) :
    ∃ more, Accounted geometry capacity (service.store platform now stream).1 (lost + more) ∧
      (more = 0 ↔ ¬ Leaks platform service (.request (.store now stream))) := by
  cases admitted : service.storeAdmit platform stream with
  | error failure =>
      rw [CacheService.store_of_not_admitted admitted]
      exact ⟨0, accounted, by simp [Leaks, admitted]⟩
  | ok pair =>
      rcases outcome : service.allocator.allocateAndWrite platform pair.2 with ⟨allocator, result⟩
      rcases result with panic | refused | ⟨location, handle⟩
      · exact accounted.store_of_panic admitted outcome
      · exact accounted.store_of_refused admitted outcome
      · exact accounted.store_of_written admitted outcome

/-- Removing a present key leaves one entry less, each still with its block. -/
theorem Accounted.remove {prefixHash : PrefixHash} {index : BlockIndex} {entry : IndexEntry}
    (accounted : Accounted geometry capacity service lost)
    (removed : service.index.remove prefixHash = (index, some entry)) :
    index.capacity = capacity ∧ index.Tracks ∧ index.len + 1 = service.index.len ∧
      ∀ key entry, index.map.lookup key = some entry →
        ∃ location, entry.blocks = [location] ∧
          location.blockIndex.toNat < geometry.totalBlocks := by
  have removedMap := service.index.remove_map prefixHash
  have present := mem_of_removed removed
  obtain ⟨stillTracks, sameCapacity⟩ := accounted.tracks.step (.remove prefixHash)
  have fewer := accounted.tracks.len_remove present
  simp only [BlockIndex.step, removed] at removedMap stillTracks sameCapacity fewer
  refine ⟨sameCapacity.trans accounted.capacityEq, stillTracks, ?_, ?_⟩
  · have someEntry : 0 < service.index.len := by
      rw [BlockIndex.len_eq_length_keys]
      exact List.length_pos_of_mem present
    omega
  · intro key other lookedUp
    rw [removedMap] at lookedUp
    by_cases same : key = prefixHash
    · rw [same, AList.lookup_erase] at lookedUp
      cases lookedUp
    · rw [AList.lookup_erase_ne same] at lookedUp
      exact accounted.single key other lookedUp

/-- A Delete of a missing key changes nothing that is counted. -/
theorem Accounted.delete_of_absent (accounted : Accounted geometry capacity service lost)
    {request : DeleteRequest} {prefixHash : PrefixHash} {index : BlockIndex}
    (parsed : parsePrefixHash request.prefixHash = .ok prefixHash)
    (removed : service.index.remove prefixHash = (index, none)) :
    Accounted geometry capacity (service.delete request).1 lost := by
  have missing : service.index.map.lookup prefixHash = none := by
    rw [← BlockIndex.remove_snd, removed]
  have sameMap := service.index.remove_map prefixHash
  obtain ⟨stillTracks, sameCapacity⟩ := accounted.tracks.step (.remove prefixHash)
  simp only [BlockIndex.step, removed,
    erase_of_lookup_eq_none missing] at sameMap stillTracks sameCapacity
  rw [CacheService.delete_of_absent parsed removed]
  refine ⟨accounted.geometryEq, sameCapacity.trans accounted.capacityEq, stillTracks, ?_, ?_⟩
  · simp only [sameMap]
    exact accounted.single
  · simp only [BlockIndex.len, sameMap]
    exact accounted.balance

/-- A Delete of a present key frees its block, or panics over a pool of another id and
loses it. -/
theorem Accounted.delete_of_present (accounted : Accounted geometry capacity service lost)
    {request : DeleteRequest} {prefixHash : PrefixHash} {index : BlockIndex} {entry : IndexEntry}
    (parsed : parsePrefixHash request.prefixHash = .ok prefixHash)
    (removed : service.index.remove prefixHash = (index, some entry)) :
    Accounted geometry capacity (service.delete request).1
      (lost + if service.allocator.pool.geometry.poolId = 0 then 0 else 1) := by
  have found : service.index.map.lookup prefixHash = some entry := by
    rw [← BlockIndex.remove_snd, removed]
  obtain ⟨location, single, inPool⟩ := accounted.single prefixHash entry found
  obtain ⟨stillCapacity, stillTracks, fewer, stillSingle⟩ := accounted.remove removed
  have balance := accounted.balance
  by_cases samePool : service.allocator.pool.geometry.poolId = 0
  · obtain ⟨pool, poolFreed, freed⟩ :=
      @BlockAllocator.exists_deallocate service.allocator
        (CacheService.localHandle location) samePool.symm
        (accounted.geometryEq ▸ inPool)
    obtain ⟨-, -, freeEq, geometryKept, -⟩ := MemoryPool.deallocate_eq_ok poolFreed
    rw [CacheService.delete_of_freed parsed removed single freed, if_pos samePool]
    refine ⟨geometryKept.trans accounted.geometryEq, stillCapacity, stillTracks, stillSingle, ?_⟩
    have freeLength := congrArg List.length freeEq
    rw [List.length_append, List.length_singleton] at freeLength
    show pool.freeList.length + index.len + (lost + 0) = _
    omega
  · rw [CacheService.delete_of_panic parsed removed single
      (BlockAllocator.deallocate_of_other_pool (Ne.symm samePool)), if_neg samePool]
    refine ⟨accounted.geometryEq, stillCapacity, stillTracks, stillSingle, ?_⟩
    show service.allocator.pool.freeList.length + index.len + (lost + 1) = _
    omega

theorem Accounted.delete (accounted : Accounted geometry capacity service lost)
    (request : DeleteRequest) :
    ∃ more, Accounted geometry capacity (service.delete request).1 (lost + more) ∧
      (more = 0 ↔ ¬ Leaks platform service (.request (.delete request))) := by
  cases parsed : parsePrefixHash request.prefixHash with
  | error status =>
      rw [CacheService.delete_of_rejected parsed]
      exact ⟨0, accounted, by simp [Leaks, parsed]⟩
  | ok prefixHash =>
      simp only [Leaks, parsed]
      rcases removed : service.index.remove prefixHash with ⟨index, _ | entry⟩
      · have absent : prefixHash ∉ service.index.map := by
          rw [← AList.lookup_eq_none, ← BlockIndex.remove_snd, removed]
        exact ⟨0, accounted.delete_of_absent parsed removed,
          iff_of_true rfl fun leaks => absent leaks.1⟩
      · refine ⟨_, accounted.delete_of_present parsed removed, ?_⟩
        have present := mem_of_removed removed
        by_cases samePool : service.allocator.pool.geometry.poolId = 0
        · simp [samePool]
        · simp [samePool, present]

/-- One event: what it loses is zero exactly when it is not one that leaks. -/
theorem Accounted.react (platform : Platform)
    (accounted : Accounted geometry capacity service lost) (event : Event) :
    ∃ more, Accounted geometry capacity (service.react platform event).1 (lost + more) ∧
      (more = 0 ↔ ¬ Leaks platform service event) := by
  cases event with
  | pressure level => exact ⟨0, accounted.touched ⟨rfl, Touched.refl _⟩, by simp [Leaks]⟩
  | remote contents => exact ⟨0, accounted.touched ⟨rfl, Touched.refl _⟩, by simp [Leaks]⟩
  | request request =>
      cases request with
      | store now stream => exact accounted.store now stream
      | delete request => exact accounted.delete request
      | lookup request =>
          exact ⟨0, accounted.touched (lookup_touched request), by simp [Leaks]⟩
      | batchLookup request =>
          exact ⟨0, accounted.touched (batchLookupFrom_touched request.prefixHashes [] []),
            by simp [Leaks]⟩
      | get request => exact ⟨0, accounted.touched (get_touched request), by simp [Leaks]⟩

/-- A whole run: nothing is lost exactly when no event of it leaks. -/
theorem Accounted.run_react (platform : Platform)
    (accounted : Accounted geometry capacity service lost) (events : List Event) :
    ∃ more, Accounted geometry capacity (run (next (CacheService.react platform)) service events)
        (lost + more) ∧
      (more = 0 ↔ Allows (next (CacheService.react platform))
        (fun service event => ¬ Leaks platform service event) service events) := by
  induction events generalizing service lost with
  | nil => exact ⟨0, accounted, iff_of_true rfl trivial⟩
  | cons event rest inductionHypothesis =>
      obtain ⟨first, afterFirst, firstIff⟩ := accounted.react platform event
      obtain ⟨others, afterOthers, othersIff⟩ := inductionHypothesis afterFirst
      refine ⟨first + others, ?_, ?_⟩
      · rw [← Nat.add_assoc]
        exact afterOthers
      · rw [Nat.add_eq_zero_iff, firstIff, othersIff]
        rfl

end Steps

theorem new_accounted (geometry : Geometry) (capacity : Nat) (nodeId : String) (metadata : Bool)
    (remoteIndex : Option RemoteIndex) :
    Accounted geometry capacity
      (CacheService.new geometry capacity nodeId metadata remoteIndex) 0 where
  geometryEq := rfl
  capacityEq := rfl
  tracks := BlockIndex.new_tracks capacity
  single := by
    intro key entry found
    cases found
  balance := by
    show (List.range geometry.totalBlocks).length + 0 + 0 = geometry.totalBlocks
    simp

/-- The books of an agent that has handled anything balance. -/
theorem exists_accounted (platform : Platform) (geometry : Geometry) (capacity : Nat)
    (nodeId : String) (metadata : Bool) (remoteIndex : Option RemoteIndex)
    (events : List Event) :
    ∃ lost, Accounted geometry capacity (run (next (CacheService.react platform))
      (CacheService.new geometry capacity nodeId metadata remoteIndex) events) lost := by
  obtain ⟨more, accounted, -⟩ :=
    (new_accounted geometry capacity nodeId metadata remoteIndex).run_react platform events
  exact ⟨_, accounted⟩

/-! ## Conservation -/

/-- The used blocks are as many as the locations of the index. -/
def CacheService.Conserved (service : CacheService) : Prop :=
  service.allocator.stats.usedBlocks = Multiset.card service.index.locations

/-- Every block that is not on the free list is named by an index entry. -/
def CacheService.Reachable (service : CacheService) : Prop :=
  ∀ block < service.allocator.pool.geometry.totalBlocks,
    block ∉ service.allocator.pool.freeList →
      ∃ location ∈ service.index.locations, location.blockIndex.toNat = block

instance (service : CacheService) : Decidable service.Conserved :=
  inferInstanceAs (Decidable (_ = _))

theorem Accounted.conserved_iff {geometry : Geometry} {capacity : Nat} {service : CacheService}
    {lost : Nat}
    (accounted : Accounted geometry capacity service lost) : service.Conserved ↔ lost = 0 := by
  have balance := accounted.balance
  rw [← accounted.geometryEq] at balance
  rw [CacheService.Conserved, accounted.card_locations]
  simp only [BlockAllocator.stats, MemoryPool.stats]
  omega

theorem Accounted.reachable {geometry : Geometry} {capacity : Nat} {service : CacheService}
    (accounted : Accounted geometry capacity service 0)
    (exclusive : Exclusive geometry service.allocator service.index.locations) :
    service.Reachable := by
  intro block inside taken
  rw [accounted.geometryEq] at inside
  refine exclusive.exists_location ?_ inside taken
  rw [accounted.card_locations]
  exact accounted.balance

/-- Blocks are conserved after every event of a run exactly when no event of the
run leaks: no Store that gets a block replaces or evicts an entry, no write
panics after taking its block, and no Delete drops an entry of a foreign pool.
Block indices are 32-bit, so in a larger pool the count is all that can be said. -/
theorem blocks_conserved_iff_no_leak (platform : Platform) (geometry : Geometry) (capacity : Nat)
    (nodeId : String) (metadata : Bool) (remoteIndex : Option RemoteIndex)
    (events : List Event) :
    (∀ before after, events = before ++ after →
      let service := run (next (CacheService.react platform))
        (CacheService.new geometry capacity nodeId metadata remoteIndex) before
      service.Conserved ∧ (geometry.totalBlocks ≤ 2 ^ 32 → service.Reachable)) ↔
    Allows (next (CacheService.react platform))
      (fun service event => ¬ Leaks platform service event)
      (CacheService.new geometry capacity nodeId metadata remoteIndex) events := by
  have booked (before : List Event) :=
    (new_accounted geometry capacity nodeId metadata remoteIndex).run_react platform before
  simp only [Nat.zero_add] at booked
  constructor
  · intro conserved
    obtain ⟨lost, accounted, lostIff⟩ := booked events
    exact lostIff.mp (accounted.conserved_iff.mp (conserved events [] (by simp)).1)
  · rintro allowed before after rfl service
    obtain ⟨lost, accounted, lostIff⟩ := booked before
    obtain rfl : lost = 0 := lostIff.mpr ((allows_append _ before after).mp allowed).1
    exact ⟨accounted.conserved_iff.mpr rfl, fun small => accounted.reachable
      (run_react_exclusive small platform capacity nodeId metadata remoteIndex before)⟩

/-- The block of an overwritten entry stays in use with nobody to free it: two
Stores of one key leave two used blocks and one indexed location. -/
theorem overwritten_block_is_lost :
    let store : Event := .request (.store 0
      [.ok ⟨some (.header ⟨List.replicate 16 1, 1, ""⟩)⟩, .ok ⟨some (.data [7])⟩])
    let service := run (next (CacheService.react Platform.release))
      (CacheService.new Geometry.twoBlocks 2 "node" false none) [store, store]
    service.allocator.stats.usedBlocks = 2 ∧ Multiset.card service.index.locations = 1 ∧
      ¬ service.Conserved := by
  decide +kernel

end CmxRdma.Agent
