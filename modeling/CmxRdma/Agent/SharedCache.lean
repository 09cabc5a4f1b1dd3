import CmxRdma.Agent.ByteMapRefinement
import Mathlib.Data.List.InsertIdx

/-!
Contract: concurrent requests act on one atomic cache.

Owns: a cache of bytes without blocks, generations or memory, on which a Store takes
effect at its index insert, a Delete at its index removal and a lookup at its index
lookup; and the refinement of every interleaving of the agent's steps to it.

Does not own: what a Get delivers when its block was reused between its two steps; see
`CrossKeyRead`. Steps inside one index call are those of `IndexConcurrency`.
-/

namespace CmxRdma.Agent

open CmxRdma.BlockStore
open CmxRdma.Lib
open CmxRdma.Lib.Transition
open CmxRdma.Memory

/-! ## The atomic cache -/

/-- What a request in flight learns from one step. -/
inductive Seen where
  | stored (accepted : Bool)
  | committed (evicted : Option (List PrefixHash))
  | found (contents : Option (List (List UInt8)))
  | removed (present : Bool)
  | nothing
deriving DecidableEq

/-- Committed entries by recency, Stores that have not committed, for each Delete in
flight the number of blocks it has yet to give back, and the blocks nobody has. -/
structure SharedCache where
  entries : List (PrefixHash × List UInt8)
  staged : List (PrefixHash × List UInt8)
  returning : List Nat
  free : Nat
deriving DecidableEq

namespace SharedCache

def new (blocks : Nat) : SharedCache := ⟨[], [], [], blocks⟩

/-- One step of a request. An entry that a commit replaces or evicts does not give its
block back. -/
def step (capacity largest : Nat) (cache : SharedCache) : Action → SharedCache × Seen
  | .storeWrite key data =>
      if 0 < cache.free ∧ data.length ≤ largest then
        ({ cache with staged := cache.staged ++ [(key, data)], free := cache.free - 1 },
          .stored true)
      else (cache, .stored false)
  | .storeInsert position _ =>
      match cache.staged[position]? with
      | none => (cache, .committed none)
      | some (key, data) =>
          ({ cache with
              entries := (RecencyMap.put capacity key data cache.entries).2
              staged := cache.staged.eraseIdx position },
            .committed (some (RecencyMap.put capacity key data cache.entries).1))
  | .lookup key | .getLookup key =>
      ({ cache with entries := RecencyMap.bring key cache.entries },
        .found ((RecencyMap.find key cache.entries).map fun data => [data]))
  | .getRead _ => (cache, .nothing)
  | .deleteRemove key =>
      match RecencyMap.find key cache.entries with
      | none => (cache, .removed false)
      | some _ =>
          ({ cache with
              entries := RecencyMap.erase key cache.entries
              returning := cache.returning ++ [1] },
            .removed true)
  | .deleteFree position =>
      match cache.returning[position]? with
      | none => (cache, .nothing)
      | some 0 => ({ cache with returning := cache.returning.eraseIdx position }, .nothing)
      | some (left + 1) =>
          ({ cache with
              returning := cache.returning.set position left
              free := cache.free + 1 },
            .nothing)

end SharedCache

/-! ## The agent's steps as a request sees them -/

/-- Whether `allocate_and_write` gave the Store a block. -/
def accepts (platform : Platform) (allocator : BlockAllocator) (data : List UInt8) : Bool :=
  match (allocator.allocateAndWrite platform data).2 with
  | .ok (some _) => true
  | _ => false

/-- The data messages a Get would send if it read the blocks of an entry now. -/
def contentsNow (platform : Platform) (allocator : BlockAllocator) (key : PrefixHash)
    (entry : IndexEntry) : List (List UInt8) :=
  (System.delivered platform allocator ⟨key, entry⟩).map Delivery.data

def System.visible (platform : Platform) (system : System) : Action → Seen
  | .storeWrite _ data => .stored (accepts platform system.allocator data)
  | .storeInsert position now =>
      .committed (system.stores[position]?.map fun pending =>
        (system.index.insert pending.key [pending.location] now).2)
  | .lookup key | .getLookup key =>
      .found ((system.index.lookup key).2.map (contentsNow platform system.allocator key))
  | .getRead _ => .nothing
  | .deleteRemove key => .removed (system.index.remove key).2.isSome
  | .deleteFree _ => .nothing

def System.observe (platform : Platform) (system : System) (action : Action) : System × Seen :=
  (system.step platform action, system.visible platform action)

/-! ## The relation -/

/-- The block of a location holds these bytes. -/
structure Bears (platform : Platform) (geometry : Geometry) (allocator : BlockAllocator)
    (location : BlockLocation) (data : List UInt8) : Prop where
  fits : BlockHeader.size + data.length ≤ geometry.blockSize
  holds : HoldsAt platform geometry allocator location data

/-- The agent shows the cache. The shadow lists pair every index entry and every Store
in flight with its bytes, so that agent and cache are two views of them. -/
structure Linked (platform : Platform) (geometry : Geometry) (capacity : Nat) (system : System)
    (cache : SharedCache) (shadow : List (PrefixHash × IndexEntry × List UInt8))
    (inFlight : List (PendingStore × List UInt8)) : Prop where
  index : system.index.Simulates capacity (RecencyMap.mapValues Prod.fst shadow)
  entries : cache.entries = RecencyMap.mapValues Prod.snd shadow
  backed : ∀ key entry data, (key, entry, data) ∈ shadow →
    ∃ location, entry.blocks = [location] ∧
      Bears platform geometry system.allocator location data
  stores : system.stores = inFlight.map Prod.fst
  staged : cache.staged = inFlight.map fun store => (store.1.key, store.2)
  written : ∀ store ∈ inFlight,
    Bears platform geometry system.allocator store.1.location store.2
  returning : cache.returning = system.deletes.map List.length
  free : cache.free = system.allocator.pool.freeList.length
  exclusive : system.Exclusive geometry

section Steps

variable {platform : Platform} {geometry : Geometry} {capacity : Nat} {system : System}
  {cache : SharedCache} {shadow : List (PrefixHash × IndexEntry × List UInt8)}
  {inFlight : List (PendingStore × List UInt8)}

theorem Linked.find_index (linked : Linked platform geometry capacity system cache shadow inFlight)
    (key : PrefixHash) :
    system.index.map.lookup key = (RecencyMap.find key shadow).map Prod.fst := by
  rw [linked.index.refines.find, RecencyMap.find_mapValues]

theorem Linked.find_entries
    (linked : Linked platform geometry capacity system cache shadow inFlight)
    (key : PrefixHash) :
    RecencyMap.find key cache.entries = (RecencyMap.find key shadow).map Prod.snd := by
  rw [linked.entries, RecencyMap.find_mapValues]

/-- The location of an entry is held, so its block is placed and not free. -/
theorem Linked.mem_held (linked : Linked platform geometry capacity system cache shadow inFlight)
    {key : PrefixHash} {entry : IndexEntry} {data : List UInt8} {location : BlockLocation}
    (member : (key, entry, data) ∈ shadow) (isBlock : location ∈ entry.blocks) :
    location ∈ system.held := by
  have nodup : (shadow.map Prod.fst).Nodup := by
    rw [← RecencyMap.keys_mapValues Prod.fst]
    exact linked.index.refines.nodup
  have found : system.index.map.lookup key = some entry := by
    rw [linked.find_index, RecencyMap.find_eq_some_of_mem nodup member]
    rfl
  exact System.mem_held_of_lookup found isBlock

/-- Reading a block that bears data sends them. -/
theorem Bears.contentsNow (serviceable : Serviceable geometry capacity)
    {allocator : BlockAllocator} {location : BlockLocation} {data : List UInt8}
    (bears : Bears platform geometry allocator location data)
    (geometryEq : allocator.pool.geometry = geometry) (placed : Placed geometry location)
    (key : PrefixHash) {entry : IndexEntry} (single : entry.blocks = [location]) :
    contentsNow platform allocator key entry = [data] := by
  subst geometryEq
  have short : data.length < 2 ^ 32 := by
    have fits := bears.fits
    have narrow := serviceable.narrow
    omega
  have read : allocator.readVerified platform (CacheService.localHandle location) =
      .ok (some data) :=
    BlockAllocator.readVerified_of_holds bears.holds bears.fits serviceable.firstPool.symm
      placed.offsetEq short
  simp [Agent.contentsNow, System.delivered, single, CacheService.streamBlocks, read]

/-- What a lookup finds on both sides. -/
theorem Linked.found_eq (serviceable : Serviceable geometry capacity)
    (linked : Linked platform geometry capacity system cache shadow inFlight) (key : PrefixHash) :
    (system.index.lookup key).2.map (contentsNow platform system.allocator key) =
      (RecencyMap.find key cache.entries).map fun data => [data] := by
  rw [system.index.lookup_snd, linked.find_index, linked.find_entries]
  cases found : RecencyMap.find key shadow with
  | none => rfl
  | some pair =>
      have member := RecencyMap.mem_of_find_eq_some found
      obtain ⟨location, single, bears⟩ := linked.backed key pair.1 pair.2 member
      have isHeld := linked.mem_held member (by simp [single] : location ∈ pair.1.blocks)
      exact congrArg some (bears.contentsNow serviceable linked.exclusive.geometryEq
        (linked.exclusive.placed location isHeld) key single)

theorem exclusive_step (platform : Platform) (serviceable : Serviceable geometry capacity)
    (exclusive : system.Exclusive geometry) (action : Action) :
    (system.step platform action).Exclusive geometry :=
  exclusive.run serviceable.few platform [action]

/-- A Store writes into a block that no held location names. -/
theorem Linked.write (serviceable : Serviceable geometry capacity)
    (linked : Linked platform geometry capacity system cache shadow inFlight) {key : PrefixHash}
    {data : List UInt8} {allocator : BlockAllocator} {location : BlockLocation}
    {handle : BlockHandle}
    (outcome : system.allocator.allocateAndWrite platform data =
      (allocator, .ok (some (location, handle)))) :
    Linked platform geometry capacity (system.step platform (.storeWrite key data))
      { cache with staged := cache.staged ++ [(key, data)], free := cache.free - 1 } shadow
      (inFlight ++ [(⟨key, location⟩, data)]) := by
  have exclusive := exclusive_step platform serviceable linked.exclusive (.storeWrite key data)
  have written := written_of_allocateAndWrite serviceable.few linked.exclusive.geometryEq outcome
  have kept : ∀ other ∈ system.held, ∀ stored,
      Bears platform geometry system.allocator other stored →
      Bears platform geometry allocator other stored := by
    intro other isHeld stored bears
    refine ⟨bears.fits, written.frame other stored bears.fits ?_ bears.holds⟩
    exact written.apart linked.exclusive isHeld
  simp only [System.step, outcome] at exclusive ⊢
  refine ⟨linked.index, linked.entries, ?_, ?_, ?_, ?_, linked.returning, ?_, exclusive⟩
  · intro other entry stored member
    obtain ⟨indexed, single, bears⟩ := linked.backed other entry stored member
    have isHeld := linked.mem_held member (by simp [single] : indexed ∈ entry.blocks)
    exact ⟨indexed, single, kept indexed isHeld stored bears⟩
  · simp [linked.stores]
  · simp [linked.staged]
  · intro store member
    rcases List.mem_append.mp member with old | new
    · have pending : store.1 ∈ system.stores := by
        rw [linked.stores]
        exact List.mem_map_of_mem old
      exact kept _ (System.mem_held_of_mem_stores pending) _ (linked.written store old)
    · rw [List.mem_singleton.mp new]
      exact ⟨written.fits, written.holds⟩
  · rw [linked.free, written.top]
    simp

/-- A Store is accepted on both sides or on neither. -/
theorem Linked.storeWrite (serviceable : Serviceable geometry capacity)
    (linked : Linked platform geometry capacity system cache shadow inFlight) (key : PrefixHash)
    (data : List UInt8) :
    let largest := geometry.blockSize - BlockHeader.size
    Seen.stored (accepts platform system.allocator data) =
        (cache.step capacity largest (.storeWrite key data)).2 ∧
      ∃ inFlight', Linked platform geometry capacity
        (system.step platform (.storeWrite key data))
        (cache.step capacity largest (.storeWrite key data)).1 shadow inFlight' := by
  intro largest
  have roomy : BlockHeader.size ≤ geometry.blockSize := serviceable.roomy
  have geometryEq := linked.exclusive.geometryEq
  rcases outcome : system.allocator.allocateAndWrite platform data with ⟨allocator, result⟩
  rcases result with panic | refused | ⟨location, handle⟩
  · have tooSmall := (BlockAllocator.allocateAndWrite_eq_error outcome).1
    rw [geometryEq] at tooSmall
    omega
  · obtain ⟨unchanged, reason⟩ := BlockAllocator.allocateAndWrite_eq_none outcome
    have rejected : ¬ (0 < cache.free ∧ data.length ≤ largest) := by
      rw [linked.free]
      rw [geometryEq] at reason
      rintro ⟨available, fits⟩
      rcases reason with tooLarge | exhausted
      · omega
      · simp [exhausted] at available
    simp only [SharedCache.step, if_neg rejected, accepts, outcome, System.step, unchanged]
    exact ⟨trivial, inFlight, linked⟩
  · have written := written_of_allocateAndWrite serviceable.few geometryEq outcome
    have accepted : 0 < cache.free ∧ data.length ≤ largest := by
      refine ⟨?_, ?_⟩
      · rw [linked.free, written.top]
        simp
      · have fits := written.fits
        omega
    rw [SharedCache.step, if_pos accepted]
    refine ⟨?_, _, linked.write serviceable outcome⟩
    simp [accepts, outcome]

/-- A commit puts the same entry on both sides. -/
theorem Linked.storeInsert (serviceable : Serviceable geometry capacity)
    (linked : Linked platform geometry capacity system cache shadow inFlight) (position : Nat)
    (now : UInt64) (largest : Nat) :
    system.visible platform (.storeInsert position now) =
        (cache.step capacity largest (.storeInsert position now)).2 ∧
      ∃ shadow' inFlight', Linked platform geometry capacity
        (system.step platform (.storeInsert position now))
        (cache.step capacity largest (.storeInsert position now)).1 shadow' inFlight' := by
  have exclusive := exclusive_step platform serviceable linked.exclusive
    (.storeInsert position now)
  have capacityEq : max 1 capacity = capacity := max_eq_right serviceable.positive
  cases selected : inFlight[position]? with
  | none =>
      have noStore : system.stores[position]? = none := by simp [linked.stores, selected]
      have noStaged : cache.staged[position]? = none := by simp [linked.staged, selected]
      simp only [System.visible, System.step, SharedCache.step, noStore, noStaged]
      exact ⟨rfl, shadow, inFlight, linked⟩
  | some store =>
      obtain ⟨pending, data⟩ := store
      have isStore : system.stores[position]? = some pending := by
        simp [linked.stores, selected]
      have isStaged : cache.staged[position]? = some (pending.key, data) := by
        simp [linked.staged, selected]
      have stepped := BlockIndex.step_simulates (.insert pending.key [pending.location] now)
        linked.index
      have viewed := RecencyMap.put_mapValues Prod.fst capacity pending.key
        ((⟨[pending.location], now⟩, data) : IndexEntry × List UInt8) shadow
      have viewedData := RecencyMap.put_mapValues Prod.snd capacity pending.key
        ((⟨[pending.location], now⟩, data) : IndexEntry × List UInt8) shadow
      simp only [BlockIndex.step, BlockIndex.idealStep, capacityEq, viewed] at stepped
      simp only [System.step, isStore] at exclusive
      simp only [System.visible, System.step, SharedCache.step, isStore, isStaged]
      refine ⟨?_, (RecencyMap.put capacity pending.key
        ((⟨[pending.location], now⟩, data) : IndexEntry × List UInt8) shadow).2,
        inFlight.eraseIdx position, ?_⟩
      · rw [linked.entries, viewedData]
        exact congrArg (fun keys => Seen.committed (some keys))
          (BlockIndex.Result.evicted.inj stepped.1)
      · refine ⟨stepped.2, ?_, ?_, ?_, ?_, ?_, linked.returning, linked.free, exclusive⟩
        · simp only [linked.entries, viewedData]
        · intro other entry stored member
          rcases RecencyMap.mem_of_mem_put member with new | old
          · cases new
            exact ⟨pending.location, rfl, linked.written _ (List.mem_of_getElem? selected)⟩
          · exact linked.backed other entry stored old
        · simp only [linked.stores, List.eraseIdx_map]
        · simp only [linked.staged, List.eraseIdx_map]
        · intro store member
          exact linked.written store (List.mem_of_mem_eraseIdx member)

/-- A lookup brings the same entry to the front on both sides. -/
theorem Linked.bring (linked : Linked platform geometry capacity system cache shadow inFlight)
    {after : System} {key : PrefixHash} (exclusive : after.Exclusive geometry)
    (sameAllocator : after.allocator = system.allocator)
    (looked : after.index = (system.index.lookup key).1)
    (sameStores : after.stores = system.stores) (sameDeletes : after.deletes = system.deletes) :
    Linked platform geometry capacity after
      { cache with entries := RecencyMap.bring key cache.entries }
      (RecencyMap.bring key shadow) inFlight := by
  refine ⟨?_, ?_, ?_, ?_, linked.staged, ?_, ?_, ?_, exclusive⟩
  · rw [looked, ← RecencyMap.bring_mapValues]
    exact (BlockIndex.step_simulates (.lookup key) linked.index).2
  · simp only [← RecencyMap.bring_mapValues, ← linked.entries]
  · intro other entry data member
    rw [sameAllocator]
    exact linked.backed other entry data (RecencyMap.mem_of_mem_bring member)
  · rw [sameStores, linked.stores]
  · intro store member
    rw [sameAllocator]
    exact linked.written store member
  · rw [sameDeletes]
    exact linked.returning
  · rw [sameAllocator]
    exact linked.free

/-- A Delete takes the entry out of both sides and has one block to give back. -/
theorem Linked.deleteRemove (serviceable : Serviceable geometry capacity)
    (linked : Linked platform geometry capacity system cache shadow inFlight) (key : PrefixHash)
    (largest : Nat) :
    system.visible platform (.deleteRemove key) =
        (cache.step capacity largest (.deleteRemove key)).2 ∧
      ∃ shadow', Linked platform geometry capacity (system.step platform (.deleteRemove key))
        (cache.step capacity largest (.deleteRemove key)).1 shadow' inFlight := by
  have exclusive := exclusive_step platform serviceable linked.exclusive (.deleteRemove key)
  have stepped := (BlockIndex.step_simulates (.remove key) linked.index).2
  simp only [BlockIndex.step, BlockIndex.idealStep, RecencyMap.erase_mapValues] at stepped
  have removed : (system.index.remove key).2 = (RecencyMap.find key shadow).map Prod.fst := by
    rw [system.index.remove_snd, linked.find_index]
  have inCache := linked.find_entries key
  rcases outcome : system.index.remove key with ⟨index, result⟩
  rw [outcome] at removed stepped
  simp only [System.step, outcome] at exclusive
  cases found : RecencyMap.find key shadow with
  | none =>
      rw [found] at removed inCache
      obtain rfl : result = none := removed
      rw [RecencyMap.erase_of_notMem (RecencyMap.find_eq_none_iff.mp found)] at stepped
      simp only [System.visible, System.step, SharedCache.step, outcome, inCache, Option.map_none]
      refine ⟨rfl, shadow, stepped, linked.entries, linked.backed, linked.stores, linked.staged,
        linked.written, linked.returning, linked.free, exclusive⟩
  | some pair =>
      rw [found] at removed inCache
      obtain rfl : result = some pair.1 := removed
      obtain ⟨location, single, -⟩ :=
        linked.backed key pair.1 pair.2 (RecencyMap.mem_of_find_eq_some found)
      simp only [System.visible, System.step, SharedCache.step, outcome, inCache, Option.map_some]
      refine ⟨rfl, RecencyMap.erase key shadow, stepped, ?_, ?_, linked.stores, linked.staged,
        linked.written, ?_, linked.free, exclusive⟩
      · rw [linked.entries, RecencyMap.erase_mapValues]
      · intro other entry data member
        exact linked.backed other entry data (RecencyMap.mem_of_mem_erase member)
      · simp [linked.returning, single]

/-- A Delete gives its block back on both sides. -/
theorem Linked.deleteFree (serviceable : Serviceable geometry capacity)
    (linked : Linked platform geometry capacity system cache shadow inFlight) (position : Nat)
    (largest : Nat) :
    Linked platform geometry capacity (system.step platform (.deleteFree position))
      (cache.step capacity largest (.deleteFree position)).1 shadow inFlight := by
  have exclusive := exclusive_step platform serviceable linked.exclusive (.deleteFree position)
  cases selected : system.deletes[position]? with
  | none =>
      have noneLeft : cache.returning[position]? = none := by simp [linked.returning, selected]
      simp only [System.step, SharedCache.step, selected, noneLeft]
      exact linked
  | some blocks =>
      have left : cache.returning[position]? = some blocks.length := by
        simp [linked.returning, selected]
      cases blocks with
      | nil =>
          simp only [System.step, selected] at exclusive
          simp only [System.step, SharedCache.step, selected, left, List.length_nil]
          refine ⟨linked.index, linked.entries, linked.backed, linked.stores, linked.staged,
            linked.written, ?_, linked.free, exclusive⟩
          rw [linked.returning, List.eraseIdx_map]
      | cons location rest =>
          -- the handler frees under pool 0, which is this pool, a block inside it
          have isHeld : location ∈ system.held := System.mem_held_of_mem_deletes
            (List.mem_of_getElem? selected) List.mem_cons_self
          have geometryEq := linked.exclusive.geometryEq
          have samePool : (CacheService.localHandle location).poolId =
              system.allocator.pool.geometry.poolId := by
            rw [geometryEq, serviceable.firstPool]
            rfl
          have inRange : (CacheService.localHandle location).blockIndex.toNat <
              system.allocator.pool.geometry.totalBlocks := by
            rw [geometryEq]
            exact (linked.exclusive.placed location isHeld).inPool
          obtain ⟨pool, freed, deallocated⟩ := BlockAllocator.exists_deallocate samePool inRange
          obtain ⟨-, -, freeEq, -⟩ := MemoryPool.deallocate_eq_ok freed
          simp only [System.step, selected, deallocated] at exclusive
          simp only [System.step, SharedCache.step, selected, left, deallocated,
            List.length_cons]
          refine ⟨linked.index, linked.entries, ?_, linked.stores, linked.staged, ?_, ?_, ?_,
            exclusive⟩
          · intro key entry data member
            obtain ⟨indexed, single, bears⟩ := linked.backed key entry data member
            exact ⟨indexed, single, bears.fits, bears.holds.deallocate deallocated⟩
          · intro store member
            have bears := linked.written store member
            exact ⟨bears.fits, bears.holds.deallocate deallocated⟩
          · rw [linked.returning, List.map_set]
          · simp [linked.free, freeEq]

/-- One step of any request. -/
theorem Linked.observe (serviceable : Serviceable geometry capacity)
    (linked : Linked platform geometry capacity system cache shadow inFlight) (action : Action) :
    let largest := geometry.blockSize - BlockHeader.size
    system.visible platform action = (cache.step capacity largest action).2 ∧
      ∃ shadow' inFlight', Linked platform geometry capacity (system.step platform action)
        (cache.step capacity largest action).1 shadow' inFlight' := by
  intro largest
  have exclusive := exclusive_step platform serviceable linked.exclusive action
  cases action with
  | storeWrite key data =>
      obtain ⟨same, inFlight', linked'⟩ := linked.storeWrite serviceable key data
      exact ⟨same, shadow, inFlight', linked'⟩
  | storeInsert position now => exact linked.storeInsert serviceable position now largest
  | lookup key =>
      refine ⟨congrArg Seen.found (linked.found_eq serviceable key), _, _,
        linked.bring exclusive rfl rfl rfl rfl⟩
  | getLookup key =>
      refine ⟨congrArg Seen.found (linked.found_eq serviceable key), _, _,
        linked.bring exclusive ?_ ?_ ?_ ?_⟩ <;>
      · simp only [System.step]
        split <;> simp_all
  | getRead position =>
      refine ⟨rfl, shadow, inFlight, ?_⟩
      simp only [System.step] at exclusive ⊢
      cases selected : system.gets[position]? with
      | none => exact linked
      | some pending =>
          rw [selected] at exclusive
          exact ⟨linked.index, linked.entries, linked.backed, linked.stores, linked.staged,
            linked.written, linked.returning, linked.free, exclusive⟩
  | deleteRemove key =>
      obtain ⟨same, shadow', linked'⟩ := linked.deleteRemove serviceable key largest
      exact ⟨same, shadow', inFlight, linked'⟩
  | deleteFree position =>
      refine ⟨?_, shadow, inFlight, linked.deleteFree serviceable position largest⟩
      simp only [System.visible, SharedCache.step]
      split <;> rfl

end Steps

/-! ## Runs -/

theorem new_linked (platform : Platform) (geometry : Geometry) (nodeId : UInt32)
    (capacity : Nat) :
    Linked platform geometry capacity (System.new geometry nodeId capacity)
      (SharedCache.new geometry.totalBlocks) [] [] where
  index := BlockIndex.new_simulates capacity
  entries := rfl
  backed := by simp
  stores := rfl
  staged := rfl
  written := by simp
  returning := rfl
  free := by simp [SharedCache.new, System.new, System.idle, BlockAllocator.new, MemoryPool.fresh]
  exclusive := new_exclusive geometry nodeId capacity

/-- Every interleaving of Stores, Deletes, Lookups and Gets is a run of the atomic
cache: each Store that finds a free block and fits is accepted, commits and removals take
effect at once, and what a lookup finds reads back as the bytes of the last commit under
its key. -/
theorem interleavings_refine_shared_cache (platform : Platform) (geometry : Geometry)
    (nodeId : UInt32) (capacity : Nat) (serviceable : Serviceable geometry capacity)
    (actions : List Action) :
    outputs (System.observe platform) (System.new geometry nodeId capacity) actions =
      outputs (SharedCache.step capacity (geometry.blockSize - BlockHeader.size))
        (SharedCache.new geometry.totalBlocks) actions := by
  have simulation (system : System) (cache : SharedCache) (action : Action)
      (linked : ∃ shadow inFlight, Linked platform geometry capacity system cache shadow inFlight) :
      (System.observe platform system action).2 =
          (cache.step capacity (geometry.blockSize - BlockHeader.size) action).2 ∧
        ∃ shadow inFlight, Linked platform geometry capacity
          (System.observe platform system action).1
          (cache.step capacity (geometry.blockSize - BlockHeader.size) action).1 shadow
          inFlight := by
    obtain ⟨shadow, inFlight, linked⟩ := linked
    exact linked.observe serviceable action
  exact (outputs_eq_of_simulation simulation
    ⟨[], [], new_linked platform geometry nodeId capacity⟩ actions).1

/-- Two blocks: a Store of one key commits while another is overwritten, and a Delete
gives its block back before the last lookup. -/
theorem interleavings_refine_shared_cache_two_blocks :
    let actions : List Action :=
      [.storeWrite (.ofByte 1) [7], .storeWrite (.ofByte 2) [8], .storeInsert 1 0,
        .lookup (.ofByte 2), .storeWrite (.ofByte 1) [9], .deleteRemove (.ofByte 2),
        .storeInsert 0 0, .deleteFree 0, .storeWrite (.ofByte 2) [9], .getLookup (.ofByte 1)]
    outputs (System.observe Platform.release) (System.new Geometry.twoBlocks 0 2) actions =
        outputs (SharedCache.step 2 (Geometry.twoBlocks.blockSize - BlockHeader.size))
          (SharedCache.new 2) actions ∧
      (outputs (SharedCache.step 2 (Geometry.twoBlocks.blockSize - BlockHeader.size))
        (SharedCache.new 2) actions).getLast? = some (.found (some [[7]])) := by
  refine ⟨?_, by decide⟩
  exact interleavings_refine_shared_cache Platform.release Geometry.twoBlocks 0 2
    ⟨by decide, by decide, by decide, by decide, by decide⟩ _

end CmxRdma.Agent
