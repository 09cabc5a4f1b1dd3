import CmxRdma.Agent.BatchLookup
import CmxRdma.Agent.Conservation
import CmxRdma.Lib.Balance

/-!
Contract: what the numbers of `stats` say about everything an agent has answered.

Owns: the blocks in use as the Stores that succeeded less the Deletes that did, the
blocks that evictions and overwrites leave behind, and the hit, miss and eviction
counters as sums over the requests, for requests handled one at a time.

Does not own: which single event loses a block; see `Conservation`.
-/

namespace CmxRdma.Agent

open CmxRdma.BlockStore
open CmxRdma.Lib
open CmxRdma.Lib.Balance
open CmxRdma.Lib.Gather
open CmxRdma.Lib.Transition
open CmxRdma.Memory
open CmxRdma.Proto

/-- Every key that leaves the index in an insert is returned, and a new key comes in. -/
theorem length_evicted_of_tracks {index : BlockIndex} (tracks : index.Tracks) (key : PrefixHash)
    (blocks : List BlockStore.BlockLocation) (createdAt : UInt64) :
    (index.insert key blocks createdAt).1.len + (index.insert key blocks createdAt).2.length =
      index.len + if key ∈ index.map then 0 else 1 := by
  obtain ⟨ideal, refines, -, bounded⟩ := tracks
  obtain ⟨evicted, inserted, -⟩ :=
    BlockIndex.insert_refines refines bounded key blocks createdAt
  rw [evicted, inserted.len_eq, refines.len_eq,
    RecencyMap.length_put_add_evicted (le_max_left 1 index.capacity) refines.nodup]
  simp only [refines.mem_iff]

/-! ## Batches -/

/-- The hashes a BatchLookup looks up: all of them, or those before the first malformed
one. -/
def wellFormedFront : List (List UInt8) → List PrefixHash
  | [] => []
  | raw :: rest =>
      match parsePrefixHash raw with
      | .error _ => []
      | .ok prefixHash => prefixHash :: wellFormedFront rest

theorem wellFormedFront_append (hashes : List PrefixHash) {rest : List (List UInt8)}
    (malformed : ∀ raw ∈ rest.head?, raw.length ≠ 16) :
    wellFormedFront (hashes.map PrefixHash.toBytes ++ rest) = hashes := by
  induction hashes with
  | nil =>
      cases rest with
      | nil => rfl
      | cons raw others =>
          rw [List.map_nil, List.nil_append, wellFormedFront,
            parsePrefixHash_of_malformed (malformed raw rfl)]
  | cons prefixHash others inductionHypothesis =>
      rw [List.map_cons, List.cons_append, wellFormedFront, parsePrefixHash_toBytes]
      exact congrArg _ inductionHypothesis

/-- A BatchLookup leaves the agent as the local lookups of these hashes do. -/
theorem batchLookup_fst (platform : Platform) (service : CacheService)
    (request : BatchLookupRequest) :
    (service.batchLookup platform request).1 =
      run (next (CacheService.lookupLocal platform request.modelId)) service
        (wellFormedFront request.prefixHashes) := by
  obtain ⟨rawHashes, modelId⟩ := request
  obtain ⟨hashes, rest, rfl, malformed⟩ := CacheService.exists_wellFormed_front rawHashes
  rw [wellFormedFront_append hashes malformed]
  cases rest with
  | nil =>
      rw [List.append_nil, CacheService.batchLookup_hashes]
  | cons raw others =>
      rw [CacheService.batchLookup_malformed platform modelId service hashes (malformed raw rfl)]

/-! ## What a Store and a Delete do to the books -/

/-- The entry a Store puts into the index, if it gets that far. -/
def committed (platform : Platform) (service : CacheService) :
    Event → Option (PrefixHash × BlockStore.BlockLocation × UInt64)
  | .request (.store now stream) =>
      match service.storeAdmit platform stream with
      | .error _ => none
      | .ok (key, data) =>
          match service.allocator.allocateAndWrite platform data with
          | (_, .ok (some (location, _))) => some (key, location, now)
          | _ => none
  | _ => none

/-- How many entries an event evicts. -/
def evictedBy (platform : Platform) (service : CacheService) (event : Event) : Nat :=
  match committed platform service event with
  | none => 0
  | some (key, location, now) => (service.index.insert key [location] now).2.length

/-- Whether an event replaces the entry of its key. -/
def overwrittenBy (platform : Platform) (service : CacheService) (event : Event) : Nat :=
  match committed platform service event with
  | none => 0
  | some (key, _, _) => if key ∈ service.index.map then 1 else 0

def isStored : Option Response → Bool
  | some (.store (.ok _)) => true
  | _ => false

def isDeleted : Option Response → Bool
  | some (.delete (.ok answer)) => answer.success
  | _ => false

/-- One event in the books: a block in use for every answer that says a Store
succeeded, one less for every Delete, and an entry for every block that was neither
overwritten, evicted nor deleted. -/
structure Booked (platform : Platform) (service : CacheService) (event : Event) : Prop where
  used : (service.react platform event).1.allocator.stats.usedBlocks +
      (isDeleted (service.react platform event).2).toNat =
    service.allocator.stats.usedBlocks + (isStored (service.react platform event).2).toNat
  entries : (service.react platform event).1.index.len +
      (evictedBy platform service event + overwrittenBy platform service event +
        (isDeleted (service.react platform event).2).toNat) =
    service.index.len + (isStored (service.react platform event).2).toNat
  evictions : (service.react platform event).1.evictions =
    service.evictions + UInt64.ofNat (evictedBy platform service event)

section Steps

variable {platform : Platform} {geometry : Geometry} {capacity : Nat} {service : CacheService}
  {lost : Nat}

/-- An event that commits nothing, frees nothing and keeps the map. -/
theorem Booked.of_unchanged {event : Event}
    (nothing : committed platform service event = none)
    (notStored : isStored (service.react platform event).2 = false)
    (notDeleted : isDeleted (service.react platform event).2 = false)
    (sameAllocator : (service.react platform event).1.allocator = service.allocator)
    (sameLen : (service.react platform event).1.index.len = service.index.len)
    (sameEvictions : (service.react platform event).1.evictions = service.evictions) :
    Booked platform service event where
  used := by rw [sameAllocator, notStored, notDeleted]
  entries := by simp only [sameLen, notStored, notDeleted, evictedBy, overwrittenBy, nothing,
    Bool.toNat_false]
  evictions := by
    simp only [sameEvictions, evictedBy, nothing]
    exact (UInt64.add_zero _).symm

theorem Booked.of_touched {event : Event}
    (nothing : committed platform service event = none)
    (notStored : isStored (service.react platform event).2 = false)
    (notDeleted : isDeleted (service.react platform event).2 = false)
    (touched : (service.react platform event).1.allocator = service.allocator ∧
      Touched service.index (service.react platform event).1.index)
    (sameEvictions : (service.react platform event).1.evictions = service.evictions) :
    Booked platform service event :=
  .of_unchanged nothing notStored notDeleted touched.1
    (by rw [BlockIndex.len, touched.2.map_eq, BlockIndex.len]) sameEvictions

/-- A Store that wrote its data takes a block and puts an entry. -/
theorem Accounted.booked_of_written (accounted : Accounted geometry capacity service lost)
    {now : UInt64} {stream : StoreStream} {key : PrefixHash} {data : List UInt8}
    {allocator : BlockAllocator} {location : BlockStore.BlockLocation} {handle : BlockHandle}
    (admitted : service.storeAdmit platform stream = .ok (key, data))
    (outcome : service.allocator.allocateAndWrite platform data =
      (allocator, .ok (some (location, handle)))) :
    Booked platform service (.request (.store now stream)) := by
  obtain ⟨block, freeEq, -, -, geometryKept, -⟩ :=
    BlockAllocator.allocateAndWrite_eq_some outcome
  have freeLength := congrArg List.length freeEq
  rw [List.length_append, List.length_singleton] at freeLength
  have balance := accounted.balance
  rw [← accounted.geometryEq] at balance
  have stored := CacheService.store_of_written admitted outcome now
  have entered := length_evicted_of_tracks accounted.tracks key [location] now
  have commits : committed platform service (.request (.store now stream)) =
      some (key, location, now) := by
    simp only [committed, admitted, outcome]
  refine ⟨?_, ?_, ?_⟩
  · simp only [CacheService.react, CacheService.handle, stored, Prod.map, id, isStored, isDeleted,
      CacheService.storeCommit, BlockAllocator.stats, MemoryPool.stats, geometryKept,
      Bool.toNat_false, Bool.toNat_true]
    omega
  · simp only [CacheService.react, CacheService.handle, stored, Prod.map, id, isStored, isDeleted,
      CacheService.storeCommit, evictedBy, overwrittenBy, commits, Bool.toNat_false,
      Bool.toNat_true]
    split_ifs at entered ⊢ <;> omega
  · simp only [CacheService.react, CacheService.handle, stored, Prod.map, id,
      CacheService.storeCommit, evictedBy, commits]

theorem Accounted.booked_store (accounted : Accounted geometry capacity service lost)
    (headerFits : BlockHeader.size ≤ geometry.blockSize) (now : UInt64) (stream : StoreStream) :
    Booked platform service (.request (.store now stream)) := by
  cases admitted : service.storeAdmit platform stream with
  | error failure =>
      have refused := CacheService.store_of_not_admitted admitted now
      apply Booked.of_unchanged
      · simp only [committed, admitted]
      all_goals simp only [CacheService.react, CacheService.handle, refused, Prod.map, id, isStored,
        isDeleted]
  | ok pair =>
      obtain ⟨key, data⟩ := pair
      rcases outcome : service.allocator.allocateAndWrite platform data with ⟨allocator, result⟩
      rcases result with panic | refused | ⟨location, handle⟩
      · have cramped := (BlockAllocator.allocateAndWrite_eq_error outcome).1
        rw [accounted.geometryEq] at cramped
        omega
      · have full := CacheService.store_of_refused admitted outcome now
        apply Booked.of_unchanged
        · simp only [committed, admitted, outcome]
        all_goals simp only [CacheService.react, CacheService.handle, full, Prod.map, id, isStored,
          isDeleted]
      · exact accounted.booked_of_written admitted outcome

/-- A Delete that finds its key gives the block back and takes the entry out. -/
theorem Accounted.booked_of_present (accounted : Accounted geometry capacity service lost)
    (firstPool : geometry.poolId = 0) {request : DeleteRequest} {prefixHash : PrefixHash}
    {index : BlockIndex} {entry : IndexEntry}
    (parsed : parsePrefixHash request.prefixHash = .ok prefixHash)
    (removed : service.index.remove prefixHash = (index, some entry)) :
    Booked platform service (.request (.delete request)) := by
  have found : service.index.map.lookup prefixHash = some entry := by
    rw [← BlockIndex.remove_snd, removed]
  obtain ⟨location, single, inPool⟩ := accounted.single prefixHash entry found
  obtain ⟨-, -, fewer, -⟩ := accounted.remove removed
  have balance := accounted.balance
  have samePool : service.allocator.pool.geometry.poolId = 0 := by
    rw [accounted.geometryEq, firstPool]
  obtain ⟨pool, poolFreed, freed⟩ :=
    @BlockAllocator.exists_deallocate service.allocator (CacheService.localHandle location)
      samePool.symm (accounted.geometryEq ▸ inPool)
  obtain ⟨-, -, freeEq, geometryKept, -⟩ := MemoryPool.deallocate_eq_ok poolFreed
  have freeLength := congrArg List.length freeEq
  rw [List.length_append, List.length_singleton] at freeLength
  have deleted := CacheService.delete_of_freed parsed removed single freed
  refine ⟨?_, ?_, ?_⟩
  · simp only [CacheService.react, CacheService.handle, deleted, Prod.map, id, isStored, isDeleted,
      BlockAllocator.stats, MemoryPool.stats, geometryKept, accounted.geometryEq,
      Bool.toNat_false, Bool.toNat_true]
    omega
  · simp only [CacheService.react, CacheService.handle, deleted, Prod.map, id, isStored, isDeleted,
      evictedBy, overwrittenBy, committed, Bool.toNat_false, Bool.toNat_true]
    omega
  · simp only [CacheService.react, CacheService.handle, deleted, Prod.map, id, evictedBy, committed]
    exact (UInt64.add_zero _).symm

theorem Accounted.booked_delete (accounted : Accounted geometry capacity service lost)
    (firstPool : geometry.poolId = 0) (request : DeleteRequest) :
    Booked platform service (.request (.delete request)) := by
  cases parsed : parsePrefixHash request.prefixHash with
  | error status =>
      have rejected := @CacheService.delete_of_rejected service request status parsed
      apply Booked.of_unchanged rfl
      all_goals simp only [CacheService.react, CacheService.handle, rejected, Prod.map, id, isStored,
        isDeleted]
  | ok prefixHash =>
      rcases removed : service.index.remove prefixHash with ⟨index, _ | entry⟩
      · have absent := CacheService.delete_of_absent parsed removed
        have missing : service.index.map.lookup prefixHash = none := by
          rw [← BlockIndex.remove_snd, removed]
        have sameMap : index.map = service.index.map := by
          have erased := service.index.remove_map prefixHash
          rwa [removed, erase_of_lookup_eq_none missing] at erased
        apply Booked.of_unchanged rfl
        case sameLen =>
          simp only [CacheService.react, CacheService.handle, absent, Prod.map, id, BlockIndex.len,
            sameMap]
        all_goals simp only [CacheService.react, CacheService.handle, absent, Prod.map, id, isStored,
          isDeleted]
      · exact accounted.booked_of_present firstPool parsed removed

/-- Looking keys up evicts nobody. -/
theorem evictions_lookups (platform : Platform) (service : CacheService) :
    (∀ request, (service.lookup platform request).1.evictions = service.evictions) ∧
      (∀ request, (service.batchLookup platform request).1.evictions = service.evictions) ∧
      ∀ request, (service.get platform request).1.evictions = service.evictions := by
  refine ⟨fun request => ?_, fun request => ?_, fun request => ?_⟩
  · unfold CacheService.lookup
    split
    · rfl
    · dsimp only
      split
      · rfl
      · split <;> rfl
  · rw [batchLookup_fst]
    refine @run_invariant _ _ (next (CacheService.lookupLocal platform request.modelId))
      (fun after => after.evictions = service.evictions) ?_ service rfl _
    intro after prefixHash same
    refine Eq.trans ?_ same
    simp only [next, CacheService.lookupLocal]
    split <;> rfl
  · unfold CacheService.get
    split
    · rfl
    · split <;> rfl

theorem Accounted.booked (platform : Platform)
    (accounted : Accounted geometry capacity service lost)
    (headerFits : BlockHeader.size ≤ geometry.blockSize) (firstPool : geometry.poolId = 0)
    (event : Event) : Booked platform service event := by
  obtain ⟨afterLookup, afterBatch, afterGet⟩ := evictions_lookups platform service
  cases event with
  | pressure level =>
      exact .of_touched rfl rfl rfl ⟨rfl, Touched.refl _⟩ rfl
  | remote contents =>
      exact .of_touched rfl rfl rfl ⟨rfl, Touched.refl _⟩ rfl
  | request request =>
      cases request with
      | store now stream => exact accounted.booked_store headerFits now stream
      | delete request => exact accounted.booked_delete firstPool request
      | lookup request =>
          exact .of_touched rfl rfl rfl (lookup_touched request) (afterLookup request)
      | batchLookup request =>
          exact .of_touched rfl rfl rfl (batchLookupFrom_touched request.prefixHashes [] [])
            (afterBatch request)
      | get request => exact .of_touched rfl rfl rfl (get_touched request) (afterGet request)

end Steps

/-- After any requests, one at a time, the blocks in use are the Stores that succeeded
less the Deletes that did, and an entry is left for each of them that was neither
overwritten nor evicted: each overwrite and each eviction has cost a block for good.
The eviction counter is the number of evictions. -/
theorem used_blocks_account (platform : Platform) {geometry : Geometry}
    (headerFits : BlockHeader.size ≤ geometry.blockSize) (firstPool : geometry.poolId = 0)
    (capacity : Nat) (nodeId : String) (metadata : Bool) (remoteIndex : Option RemoteIndex)
    (events : List Event) :
    let start := CacheService.new geometry capacity nodeId metadata remoteIndex
    let final := run (next (CacheService.react platform)) start events
    let answers := outputs (CacheService.react platform) start events
    let overwritten :=
      tally (next (CacheService.react platform)) (overwrittenBy platform) start events
    let evicted := tally (next (CacheService.react platform)) (evictedBy platform) start events
    final.allocator.stats.usedBlocks + answers.countP isDeleted = answers.countP isStored ∧
      final.allocator.stats.usedBlocks = final.index.len + evicted + overwritten ∧
      final.evictions = UInt64.ofNat evicted := by
  intro start final answers overwritten evicted
  have preserves : ∀ service event, (∃ lost, Accounted geometry capacity service lost) →
      ∃ lost,
        Accounted geometry capacity (next (CacheService.react platform) service event) lost := by
    rintro service event ⟨lost, accounted⟩
    obtain ⟨more, after, -⟩ := accounted.react platform event
    exact ⟨_, after⟩
  have initial : ∃ lost, Accounted geometry capacity start lost :=
    ⟨0, new_accounted geometry capacity nodeId metadata remoteIndex⟩
  have booked : ∀ service event, (∃ lost, Accounted geometry capacity service lost) →
      Booked platform service event := by
    rintro service event ⟨lost, accounted⟩
    exact accounted.booked platform headerFits firstPool event
  have used := @balance_run _ _ (next (CacheService.react platform)) _ _ _
    (fun service => service.allocator.stats.usedBlocks) preserves
    (fun service event known => (booked service event known).used) start initial events
  have entries := @balance_run _ _ (next (CacheService.react platform)) _ _ _
    (fun service => service.index.len) preserves
    (fun service event known => (booked service event known).entries) start initial events
  have evictions := @counter_run _ _ (next (CacheService.react platform)) _ _
    CacheService.evictions preserves
    (fun service event known => (booked service event known).evictions) start initial events
  rw [tally_outputs, tally_outputs] at used
  rw [tally_add, tally_add, tally_outputs, tally_outputs] at entries
  have entriesAtEnd : final.index.len + (evicted + overwritten + answers.countP isDeleted) =
    start.index.len + answers.countP isStored := entries
  have usedAtEnd : final.allocator.stats.usedBlocks + answers.countP isDeleted =
    start.allocator.stats.usedBlocks + answers.countP isStored := used
  have noneUsed : start.allocator.stats.usedBlocks = 0 := by
    show geometry.totalBlocks - (List.range geometry.totalBlocks).length = 0
    rw [List.length_range, Nat.sub_self]
  have noEntries : start.index.len = 0 := rfl
  exact ⟨by omega, by omega, evictions.trans (UInt64.zero_add _)⟩

/-- Two Stores of one key and a Delete of it: a block stays in use for an entry that is
no longer there. -/
theorem used_blocks_account_overwritten :
    let store : Event := .request (.store 0
      [.ok ⟨some (.header ⟨List.replicate 16 1, 1, ""⟩)⟩, .ok ⟨some (.data [7])⟩])
    let events := [store, store, .request (.delete ⟨List.replicate 16 1⟩)]
    let step := CacheService.react Platform.release
    let start := CacheService.new Geometry.twoBlocks 2 "node" false none
    let final := run (next step) start events
    BlockHeader.size ≤ Geometry.twoBlocks.blockSize ∧
      final.allocator.stats.usedBlocks + (outputs step start events).countP isDeleted =
        (outputs step start events).countP isStored ∧
      final.allocator.stats.usedBlocks = 1 ∧ final.index.len = 0 ∧
      tally (next step) (overwrittenBy Platform.release) start events = 1 := by
  intro store events step start final
  exact ⟨by decide,
    (used_blocks_account .release (by decide) rfl 2 "node" false none events).1,
    by decide +kernel, by decide +kernel, by decide +kernel⟩

/-! ## Hits and misses -/

/-- The hits an answer shows. -/
def shownHits : Option Response → Nat
  | some (.lookup (.ok answer)) => answer.found.toNat
  | some (.batchLookup (.ok answer)) => answer.found.countP id
  | some (.get (.ok _)) => 1
  | _ => 0

/-- The misses an answer shows. -/
def shownMisses : Option Response → Nat
  | some (.lookup (.ok answer)) => (!answer.found).toNat
  | some (.batchLookup (.ok answer)) => answer.found.countP (!·)
  | some (.get (.error status)) => (decide (status.code = .notFound)).toNat
  | _ => 0

/-- What a BatchLookup has looked up and found, or not found, before it is rejected. -/
def hidden (platform : Platform) (present : Bool) (service : CacheService) : Event → Nat
  | .request (.batchLookup request) =>
      match (service.batchLookup platform request).2 with
      | .ok _ => 0
      | .error _ =>
          (wellFormedFront request.prefixHashes).countP fun prefixHash =>
            decide (compositeKey platform request.modelId prefixHash ∈ service.index.map) == present
  | _ => 0

/-- How many hashes an event looks up, whatever the agent holds. -/
def lookups : Event → Nat
  | .request (.lookup request) => (parsePrefixHash request.prefixHash).isOk.toNat
  | .request (.batchLookup request) => (wellFormedFront request.prefixHashes).length
  | .request (.get request) => (parsePrefixHash request.prefixHash).isOk.toNat
  | _ => 0

/-- One event counted: what its answer shows and what a rejected batch hides. -/
structure Counted (platform : Platform) (service : CacheService) (event : Event) : Prop where
  hits : (service.react platform event).1.cacheHits = service.cacheHits + UInt64.ofNat
    (shownHits (service.react platform event).2 + hidden platform true service event)
  misses : (service.react platform event).1.cacheMisses = service.cacheMisses + UInt64.ofNat
    (shownMisses (service.react platform event).2 + hidden platform false service event)
  total : shownHits (service.react platform event).2 + hidden platform true service event +
    (shownMisses (service.react platform event).2 + hidden platform false service event) =
      lookups event

section Counters

variable {platform : Platform} {service : CacheService}

theorem Counted.of_same {event : Event}
    (sameHits : (service.react platform event).1.cacheHits = service.cacheHits)
    (sameMisses : (service.react platform event).1.cacheMisses = service.cacheMisses)
    (noHits : shownHits (service.react platform event).2 = 0)
    (noMisses : shownMisses (service.react platform event).2 = 0)
    (nothingHidden : ∀ present, hidden platform present service event = 0)
    (noLookups : lookups event = 0) : Counted platform service event where
  hits := by
    rw [sameHits, noHits, nothingHidden]
    exact (UInt64.add_zero _).symm
  misses := by
    rw [sameMisses, noMisses, nothingHidden]
    exact (UInt64.add_zero _).symm
  total := by rw [noHits, noMisses, nothingHidden, nothingHidden, noLookups]

/-- An event that looks one key up counts it once. -/
theorem Counted.of_one {event : Event} (found : Bool)
    (hits : (service.react platform event).1.cacheHits =
      service.cacheHits + UInt64.ofNat found.toNat)
    (misses : (service.react platform event).1.cacheMisses =
      service.cacheMisses + UInt64.ofNat (!found).toNat)
    (shown : shownHits (service.react platform event).2 = found.toNat)
    (missing : shownMisses (service.react platform event).2 = (!found).toNat)
    (nothingHidden : ∀ present, hidden platform present service event = 0)
    (oneLookup : lookups event = 1) : Counted platform service event where
  hits := by rw [hits, shown, nothingHidden, Nat.add_zero]
  misses := by rw [misses, missing, nothingHidden, Nat.add_zero]
  total := by
    rw [shown, missing, nothingHidden, nothingHidden, oneLookup]
    cases found <;> rfl

theorem counted_lookup (request : LookupRequest) :
    Counted platform service (.request (.lookup request)) := by
  cases parsed : parsePrefixHash request.prefixHash with
  | error status =>
      apply Counted.of_same
      all_goals simp [CacheService.react, CacheService.handle, CacheService.lookup, parsed, shownHits,
        shownMisses, hidden, lookups, Except.isOk, Except.toBool]
  | ok prefixHash =>
      have once : lookups (.request (.lookup request)) = 1 := by
        simp only [lookups, parsed, Except.isOk, Except.toBool, Bool.toNat_true]
      rcases outcome : service.index.lookup (compositeKey platform request.modelId prefixHash) with
        ⟨index, _ | entry⟩
      · cases elsewhere : { service with index := index }.remoteFirst
            (compositeKey platform request.modelId prefixHash) with
        | none =>
            apply Counted.of_one false
            all_goals simp [CacheService.react, CacheService.handle, CacheService.lookup, parsed,
              outcome, elsewhere, shownHits, shownMisses, hidden, once, CacheService.countMiss]
        | some first =>
            apply Counted.of_one true
            all_goals simp [CacheService.react, CacheService.handle, CacheService.lookup, parsed,
              outcome, elsewhere, shownHits, shownMisses, hidden, once, CacheService.countHit]
      · apply Counted.of_one true
        all_goals simp [CacheService.react, CacheService.handle, CacheService.lookup, parsed,
          outcome, shownHits, shownMisses, hidden, once, CacheService.countHit]

theorem code_of_parsePrefixHash {bytes : List UInt8} {status : Status}
    (rejected : parsePrefixHash bytes = .error status) : status.code = .invalidArgument := by
  unfold parsePrefixHash at rejected
  split at rejected
  · cases rejected
  · cases rejected
    rfl

theorem counted_get (request : GetRequest) :
    Counted platform service (.request (.get request)) := by
  cases parsed : parsePrefixHash request.prefixHash with
  | error status =>
      have otherCode := code_of_parsePrefixHash parsed
      apply Counted.of_same
      all_goals simp [CacheService.react, CacheService.handle, CacheService.get, parsed, shownHits,
        shownMisses, hidden, lookups, Except.isOk, Except.toBool, otherCode]
  | ok prefixHash =>
      have once : lookups (.request (.get request)) = 1 := by
        simp only [lookups, parsed, Except.isOk, Except.toBool, Bool.toNat_true]
      rcases outcome : service.index.lookup (compositeKey platform request.modelId prefixHash) with
        ⟨index, _ | entry⟩
      · apply Counted.of_one false
        all_goals simp [CacheService.react, CacheService.handle, CacheService.get, parsed,
          outcome, shownHits, shownMisses, hidden, once, CacheService.countMiss]
      · apply Counted.of_one true
        all_goals simp [CacheService.react, CacheService.handle, CacheService.get, parsed,
          outcome, shownHits, shownMisses, hidden, once, CacheService.countHit]

/-- Entries found and not found are the keys that are present and those that are not. -/
theorem countP_found (platform : Platform) (modelId : String)
    (map : AList fun _ : PrefixHash => IndexEntry) (hashes : List PrefixHash) :
    let entries := hashes.map fun prefixHash =>
      map.lookup (compositeKey platform modelId prefixHash)
    let Present := fun prefixHash => decide (compositeKey platform modelId prefixHash ∈ map)
    entries.countP Option.isSome = hashes.countP (fun prefixHash => Present prefixHash == true) ∧
      entries.countP (! Option.isSome ·) =
        hashes.countP (fun prefixHash => Present prefixHash == false) ∧
      entries.countP Option.isSome + entries.countP (! Option.isSome ·) = hashes.length := by
  intro entries Present
  have shows : ∀ prefixHash, (map.lookup (compositeKey platform modelId prefixHash)).isSome =
      Present prefixHash := by
    intro prefixHash
    rw [Bool.eq_iff_iff, AList.lookup_isSome, decide_eq_true_iff]
  refine ⟨?_, ?_, ?_⟩
  · rw [List.countP_map]
    exact List.countP_congr fun prefixHash _ => by rw [Function.comp, shows, beq_true]
  · rw [List.countP_map]
    exact List.countP_congr fun prefixHash _ => by rw [Function.comp, shows, beq_false]
  · have whole := List.length_eq_countP_add_countP Option.isSome (l := entries)
    rw [List.length_map] at whole
    refine whole.symm ▸ congrArg _ (List.countP_congr fun entry _ => ?_)
    cases entry <;> simp

/-- A batch counts every hash up to the first malformed one; only a batch without one
shows it. -/
theorem counted_batchLookup (request : BatchLookupRequest) :
    Counted platform service (.request (.batchLookup request)) := by
  obtain ⟨rawHashes, modelId⟩ := request
  obtain ⟨hashes, rest, rfl, malformed⟩ := CacheService.exists_wellFormed_front rawHashes
  have front := wellFormedFront_append hashes malformed
  obtain ⟨hits, misses⟩ := CacheService.run_lookupLocal_counters platform modelId service hashes
  obtain ⟨present, absent, total⟩ := countP_found platform modelId service.index.map hashes
  rw [CacheService.outputs_lookupLocal] at hits misses
  cases rest with
  | nil =>
      have answered := CacheService.batchLookup_hashes platform modelId service hashes
      rw [CacheService.outputs_lookupLocal] at answered
      rw [List.append_nil] at front ⊢
      constructor
      · simpa [CacheService.react, CacheService.handle, answered, shownHits, hidden,
          List.countP_map, Function.comp_def] using hits
      · simpa [CacheService.react, CacheService.handle, answered, shownMisses, hidden,
          List.countP_map, Function.comp_def] using misses
      · simpa [CacheService.react, CacheService.handle, answered, shownHits, shownMisses, hidden,
          lookups, front, List.countP_map, Function.comp_def] using total
  | cons raw others =>
      have answered := CacheService.batchLookup_malformed platform modelId service hashes
        (malformed raw rfl) others
      rw [present, absent] at total
      constructor
      · simpa only [CacheService.react, CacheService.handle, answered, Prod.map, id, shownHits,
          hidden, front, ← present, Nat.zero_add] using hits
      · simpa only [CacheService.react, CacheService.handle, answered, Prod.map, id, shownMisses,
          hidden, front, ← absent, Nat.zero_add] using misses
      · simpa only [CacheService.react, CacheService.handle, answered, Prod.map, id, shownHits,
          shownMisses, hidden, lookups, front, Nat.zero_add] using total

theorem counted_store (now : UInt64) (stream : StoreStream) :
    Counted platform service (.request (.store now stream)) := by
  have same : (service.store platform now stream).1.cacheHits = service.cacheHits ∧
      (service.store platform now stream).1.cacheMisses = service.cacheMisses := by
    unfold CacheService.store
    split
    · exact ⟨rfl, rfl⟩
    · split <;> exact ⟨rfl, rfl⟩
  exact .of_same same.1 same.2 rfl rfl (fun _ => rfl) rfl

theorem counted_delete (request : DeleteRequest) :
    Counted platform service (.request (.delete request)) := by
  have same : (service.delete request).1.cacheHits = service.cacheHits ∧
      (service.delete request).1.cacheMisses = service.cacheMisses := by
    unfold CacheService.delete
    split
    · exact ⟨rfl, rfl⟩
    · split
      · exact ⟨rfl, rfl⟩
      · split <;> exact ⟨rfl, rfl⟩
  exact .of_same same.1 same.2 rfl rfl (fun _ => rfl) rfl

theorem counted (platform : Platform) (service : CacheService) (event : Event) :
    Counted platform service event := by
  cases event with
  | pressure level => exact .of_same rfl rfl rfl rfl (fun _ => rfl) rfl
  | remote contents => exact .of_same rfl rfl rfl rfl (fun _ => rfl) rfl
  | request request =>
      cases request with
      | lookup request => exact counted_lookup request
      | batchLookup request => exact counted_batchLookup request
      | store now stream => exact counted_store now stream
      | get request => exact counted_get request
      | delete request => exact counted_delete request

end Counters

/-- The hit and miss counters of `stats` after any requests, one at a time: the hits and
misses the answers show, and those of rejected batches, which no answer shows. Together
they are the well-formed hashes the requests have looked up. -/
theorem counters_account (platform : Platform) (geometry : Geometry) (capacity : Nat)
    (nodeId : String) (metadata : Bool) (remoteIndex : Option RemoteIndex) (events : List Event) :
    let step := CacheService.react platform
    let start := CacheService.new geometry capacity nodeId metadata remoteIndex
    let final := run (next step) start events
    final.stats.cacheHits = UInt64.ofNat (tally (next step) (fun service event =>
        shownHits (step service event).2 + hidden platform true service event) start events) ∧
      final.stats.cacheMisses = UInt64.ofNat (tally (next step) (fun service event =>
        shownMisses (step service event).2 + hidden platform false service event) start events) ∧
      final.stats.cacheHits + final.stats.cacheMisses =
        UInt64.ofNat ((events.map lookups).sum) := by
  intro step start final
  have hits := @counter_run _ _ (next step) _ (fun _ => True) CacheService.cacheHits
    (fun _ _ known => known) (fun service event _ => (counted platform service event).hits) start
    trivial events
  have misses := @counter_run _ _ (next step) _ (fun _ => True) CacheService.cacheMisses
    (fun _ _ known => known) (fun service event _ => (counted platform service event).misses) start
    trivial events
  have fromZero : ∀ count, (0 : UInt64) + count = count := UInt64.zero_add
  refine ⟨hits.trans (fromZero _), misses.trans (fromZero _), ?_⟩
  show final.cacheHits + final.cacheMisses = _
  rw [hits.trans (fromZero _), misses.trans (fromZero _), ← UInt64.ofNat_add, ← tally_add,
    tally_congr (fun service event => (counted platform service event).total), tally_of_events]

end CmxRdma.Agent
