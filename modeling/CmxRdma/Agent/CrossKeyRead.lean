import CmxRdma.Agent.Generations

/-!
Contract: what a Get delivers while other requests run.

Owns: the invariant that ties every indexed, pending and copied location to the
write of its own key, the step condition under which it holds along a run, and
the interleaving in which a Get delivers another key's bytes: nothing pins the
block of a copied location, and the reader never compares generations.

Does not own: readers outside the agent.
-/

namespace CmxRdma.Agent

open CmxRdma.BlockStore
open CmxRdma.Lib.Transition
open CmxRdma.Memory

/-- The block of a location holds the data of a write for this key that returned
this location. -/
def Backed (platform : Platform) (geometry : Geometry) (allocator : BlockAllocator)
    (writes : List Write) (key : PrefixHash) (location : BlockLocation) : Prop :=
  ∃ write ∈ writes, write.key = key ∧ write.location = location ∧ Placed geometry location ∧
    BlockHeader.size + write.data.length ≤ geometry.blockSize ∧ write.data.length < 2 ^ 32 ∧
    HoldsAt platform geometry allocator location write.data

/-- A Store whose data fits a block may take any block but one that a Get in flight has
copied, and must fit the `u32` length of a header. -/
def System.ReadsUndisturbed (system : System) : Action → Prop
  | .storeWrite _ data =>
      BlockHeader.size + data.length ≤ system.allocator.pool.geometry.blockSize →
        data.length < 2 ^ 32 ∧
        ∀ block ∈ system.allocator.pool.freeList.getLast?, ∀ pending ∈ system.gets,
          ∀ location ∈ pending.entry.blocks, blockOf location ≠ block
  | _ => True

instance (system : System) : (action : Action) → Decidable (system.ReadsUndisturbed action)
  | .storeWrite _ data =>
      inferInstanceAs (Decidable (
        BlockHeader.size + data.length ≤ system.allocator.pool.geometry.blockSize →
        data.length < 2 ^ 32 ∧
        ∀ block ∈ system.allocator.pool.freeList.getLast?, ∀ pending ∈ system.gets,
          ∀ location ∈ pending.entry.blocks, blockOf location ≠ block))
  | .storeInsert _ _ | .lookup _ | .getLookup _ | .getRead _ | .deleteRemove _ | .deleteFree _ =>
      inferInstanceAs (Decidable True)

/-- Every location in the index, in a pending Store or copied by a pending Get
is backed under its own key, and so was every delivery. -/
structure System.Faithful (platform : Platform) (geometry : Geometry) (system : System) :
    Prop where
  exclusive : system.Exclusive geometry
  indexed : ∀ key entry, system.index.map.lookup key = some entry →
    ∃ location, entry.blocks = [location] ∧
      Backed platform geometry system.allocator system.writes key location
  stores : ∀ pending ∈ system.stores,
    Backed platform geometry system.allocator system.writes pending.key pending.location
  gets : ∀ pending ∈ system.gets, ∃ location, pending.entry.blocks = [location] ∧
    Backed platform geometry system.allocator system.writes pending.key location
  deliveries : ∀ delivery ∈ system.deliveries, ∃ write ∈ system.writes,
    write.key = delivery.key ∧ write.data = delivery.data ∧
      write.location.generation = delivery.generation

/-! ## Backing under allocator steps -/

section Backing

variable {platform : Platform} {geometry : Geometry} {allocator allocator' : BlockAllocator}
  {writes : List Write} {key : PrefixHash} {location : BlockLocation}

/-- Backing survives as long as the bytes of its block do. -/
theorem Backed.mono {more : List Write}
    (backed : Backed platform geometry allocator writes key location)
    (included : ∀ write ∈ writes, write ∈ more)
    (kept : ∀ data, BlockHeader.size + data.length ≤ geometry.blockSize →
      HoldsAt platform geometry allocator location data →
      HoldsAt platform geometry allocator' location data) :
    Backed platform geometry allocator' more key location := by
  obtain ⟨write, member, sameKey, sameLocation, placed, fits, short, holds⟩ := backed
  exact ⟨write, included write member, sameKey, sameLocation, placed, fits, short,
    kept write.data fits holds⟩

/-- Reading a backed location delivers its write, or nothing when the pool is
not the one whose id the handler assumes. -/
theorem Backed.streamBlocks
    (backed : Backed platform geometry allocator writes key location)
    (geometryEq : allocator.pool.geometry = geometry) {chunk : List UInt8}
    (sent : .ok ⟨some (.data chunk)⟩ ∈
      CacheService.streamBlocks platform allocator [location]) :
    ∃ write ∈ writes, write.key = key ∧ write.data = chunk ∧ write.location = location := by
  obtain ⟨write, member, sameKey, sameLocation, placed, fits, short, holds⟩ := backed
  subst geometryEq
  by_cases localPool : allocator.pool.geometry.poolId = 0
  · have read : allocator.readVerified platform (CacheService.localHandle location) =
        .ok (some write.data) :=
      BlockAllocator.readVerified_of_holds holds fits localPool.symm placed.offsetEq short
    simp only [CacheService.streamBlocks, read, List.mem_singleton, Except.ok.injEq,
      Proto.GetResponse.mk.injEq, Option.some.injEq, Proto.GetPayload.data.injEq] at sent
    exact ⟨write, member, sameKey, sent.symm, sameLocation⟩
  · have refused : allocator.readVerified platform (CacheService.localHandle location) =
        .error .assertionFailed := by
      have notZero : ¬ (0 : UInt32) = allocator.pool.geometry.poolId := fun same =>
        localPool same.symm
      simp [BlockAllocator.readVerified, MemoryPool.getSlice, MemoryPool.getPtr,
        CacheService.localHandle, notZero, bind, Except.bind]
    simp [CacheService.streamBlocks, refused] at sent

end Backing

/-! ## Steps -/

section Steps

variable {platform : Platform} {geometry : Geometry} {system : System}

/-- A write takes a block that no keyed location names, so all stay backed. -/
theorem System.Faithful.write {allocator : BlockAllocator} {key : PrefixHash}
    {data : List UInt8} {location : BlockLocation}
    (faithful : system.Faithful platform geometry) (short : data.length < 2 ^ 32)
    (written : Written platform geometry system.allocator allocator data location)
    (unread : ∀ pending ∈ system.gets, ∀ copied ∈ pending.entry.blocks,
      blockOf copied ≠ blockOf location)
    (exclusive : Agent.Exclusive geometry allocator (location ::ₘ system.held)) :
    ({ system with
        allocator := allocator
        stores := system.stores ++ [⟨key, location⟩]
        writes := system.writes ++ [⟨key, data, location⟩] } : System).Faithful platform
      geometry := by
  have included : ∀ write ∈ system.writes, write ∈ system.writes ++ [⟨key, data, location⟩] :=
    fun _ member => List.mem_append_left _ member
  have kept : ∀ {other owner}, blockOf other ≠ blockOf location →
      Backed platform geometry system.allocator system.writes owner other →
      Backed platform geometry allocator (system.writes ++ [⟨key, data, location⟩]) owner other :=
    fun different backed =>
      backed.mono included fun stored fits holds => written.frame _ stored fits different holds
  have heldApart : ∀ other ∈ system.held, blockOf other ≠ blockOf location :=
    fun _ isHeld => written.apart faithful.exclusive isHeld
  refine ⟨?_, ?_, ?_, ?_, ?_⟩
  · rw [System.Exclusive, System.held_append_store]
    exact exclusive
  · intro owner entry found
    obtain ⟨indexed, single, backed⟩ := faithful.indexed owner entry found
    refine ⟨indexed, single, kept (heldApart indexed ?_) backed⟩
    exact System.mem_held_of_lookup found (single ▸ List.mem_singleton_self _)
  · intro pending member
    rcases List.mem_append.mp member with old | new
    · exact kept (heldApart _ (System.mem_held_of_mem_stores old)) (faithful.stores pending old)
    · rw [List.mem_singleton.mp new]
      exact ⟨⟨key, data, location⟩, List.mem_append_right _ (List.mem_singleton_self _), rfl, rfl,
        written.placed, written.fits, short, written.holds⟩
  · intro pending member
    obtain ⟨copied, single, backed⟩ := faithful.gets pending member
    refine ⟨copied, single, kept (unread pending member copied ?_) backed⟩
    exact single ▸ List.mem_singleton_self _
  · intro delivery member
    obtain ⟨write, writeMember, sameWrite⟩ := faithful.deliveries delivery member
    exact ⟨write, included write writeMember, sameWrite⟩

/-- What a Get in flight delivers was written under its key. -/
theorem System.Faithful.delivered (faithful : system.Faithful platform geometry)
    {pending : PendingGet} (inFlight : pending ∈ system.gets) {delivery : Delivery}
    (sent : delivery ∈ System.delivered platform system.allocator pending) :
    ∃ write ∈ system.writes, write.key = delivery.key ∧ write.data = delivery.data ∧
      write.location.generation = delivery.generation := by
  obtain ⟨location, single, backed⟩ := faithful.gets pending inFlight
  obtain ⟨message, streamed, shown⟩ := List.mem_filterMap.mp sent
  rw [single] at streamed
  split at shown
  · obtain rfl := Option.some.inj shown
    obtain ⟨write, writeMember, sameKey, sameData, sameLocation⟩ :=
      backed.streamBlocks faithful.exclusive.geometryEq streamed
    refine ⟨write, writeMember, sameKey, sameData, ?_⟩
    simp [CacheService.getHeader, single, sameLocation]
  · cases shown

/-- An allocator step that leaves all bytes alone keeps every backing. -/
theorem System.Faithful.sameBytes {after : System}
    (faithful : system.Faithful platform geometry) (exclusive : after.Exclusive geometry)
    (sameRegion : after.allocator.pool.region = system.allocator.pool.region)
    (indexed : ∀ key entry, after.index.map.lookup key = some entry →
      system.index.map.lookup key = some entry ∨
        ∃ pending ∈ system.stores, pending.key = key ∧ entry.blocks = [pending.location])
    (stores : ∀ pending ∈ after.stores, pending ∈ system.stores)
    (gets : ∀ pending ∈ after.gets, pending ∈ system.gets ∨
      system.index.map.lookup pending.key = some pending.entry)
    (writes : after.writes = system.writes)
    (deliveries : ∀ delivery ∈ after.deliveries, delivery ∈ system.deliveries ∨
      ∃ pending ∈ system.gets,
        delivery ∈ System.delivered platform system.allocator pending) :
    after.Faithful platform geometry := by
  have kept : ∀ {key location},
      Backed platform geometry system.allocator system.writes key location →
      Backed platform geometry after.allocator after.writes key location := by
    intro key location backed
    rw [writes]
    refine backed.mono (fun _ member => member) fun data _ holds => ?_
    unfold HoldsAt
    rw [sameRegion]
    exact holds
  refine ⟨exclusive, ?_, ?_, ?_, ?_⟩
  · intro key entry found
    rcases indexed key entry found with old | ⟨pending, member, rfl, single⟩
    · obtain ⟨location, single, backed⟩ := faithful.indexed key entry old
      exact ⟨location, single, kept backed⟩
    · exact ⟨pending.location, single, kept (faithful.stores pending member)⟩
  · intro pending member
    exact kept (faithful.stores pending (stores pending member))
  · intro pending member
    rcases gets pending member with old | found
    · obtain ⟨location, single, backed⟩ := faithful.gets pending old
      exact ⟨location, single, kept backed⟩
    · obtain ⟨location, single, backed⟩ := faithful.indexed pending.key pending.entry found
      exact ⟨location, single, kept backed⟩
  · intro delivery member
    rw [writes]
    rcases deliveries delivery member with old | ⟨pending, inFlight, sent⟩
    · exact faithful.deliveries delivery old
    · exact faithful.delivered inFlight sent

/-! A step other than the write of a Store leaves the bytes and the writes alone, and
takes what is in flight from what was there. -/

section OtherSteps

variable {action : Action} (notWrite : ∀ key data, action ≠ .storeWrite key data)

include notWrite

theorem System.region_step : (system.step platform action).allocator.pool.region =
    system.allocator.pool.region := by
  cases action with
  | storeWrite key data => exact absurd rfl (notWrite key data)
  | lookup key => rfl
  | storeInsert position now | getLookup key | getRead position | deleteRemove key =>
      simp only [System.step]
      split <;> rfl
  | deleteFree position =>
      simp only [System.step]
      split
      · rfl
      · rfl
      · split
        · rfl
        · rename_i freed
          obtain ⟨pool, poolFreed, rfl⟩ := BlockAllocator.deallocate_eq_ok freed
          exact (MemoryPool.deallocate_eq_ok poolFreed).2.2.2.2

theorem System.writes_step : (system.step platform action).writes = system.writes := by
  cases action with
  | storeWrite key data => exact absurd rfl (notWrite key data)
  | lookup key => rfl
  | storeInsert position now | getLookup key | getRead position | deleteRemove key =>
      simp only [System.step]
      split <;> rfl
  | deleteFree position =>
      simp only [System.step]
      split
      · rfl
      · rfl
      · split <;> rfl

theorem System.mem_stores_step {pending : PendingStore}
    (member : pending ∈ (system.step platform action).stores) : pending ∈ system.stores := by
  cases action with
  | storeWrite key data => exact absurd rfl (notWrite key data)
  | storeInsert position now =>
      simp only [System.step] at member
      split at member
      · exact member
      · exact List.mem_of_mem_eraseIdx member
  | lookup key => exact member
  | getLookup key | getRead position | deleteRemove key =>
      simp only [System.step] at member
      split at member <;> exact member
  | deleteFree position =>
      simp only [System.step] at member
      split at member
      · exact member
      · exact member
      · split at member <;> exact member

theorem System.mem_gets_step {pending : PendingGet}
    (member : pending ∈ (system.step platform action).gets) : pending ∈ system.gets ∨
      system.index.map.lookup pending.key = some pending.entry := by
  cases action with
  | storeWrite key data => exact absurd rfl (notWrite key data)
  | lookup key => exact Or.inl member
  | getLookup key =>
      simp only [System.step] at member
      split at member
      · exact Or.inl member
      · rename_i index entry outcome
        rcases List.mem_append.mp member with old | new
        · exact Or.inl old
        · rw [List.mem_singleton.mp new, ← BlockIndex.lookup_snd, outcome]
          exact Or.inr rfl
  | getRead position =>
      simp only [System.step] at member
      split at member
      · exact Or.inl member
      · exact Or.inl (List.mem_of_mem_eraseIdx member)
  | storeInsert position now | deleteRemove key =>
      simp only [System.step] at member
      split at member <;> exact Or.inl member
  | deleteFree position =>
      simp only [System.step] at member
      split at member
      · exact Or.inl member
      · exact Or.inl member
      · split at member <;> exact Or.inl member

theorem System.mem_deliveries_step {delivery : Delivery}
    (member : delivery ∈ (system.step platform action).deliveries) :
    delivery ∈ system.deliveries ∨ ∃ pending ∈ system.gets,
      delivery ∈ System.delivered platform system.allocator pending := by
  cases action with
  | storeWrite key data => exact absurd rfl (notWrite key data)
  | lookup key => exact Or.inl member
  | getRead position =>
      simp only [System.step] at member
      split at member
      · exact Or.inl member
      · rename_i pending selected
        rcases List.mem_append.mp member with old | new
        · exact Or.inl old
        · exact Or.inr ⟨pending, List.mem_of_getElem? selected, new⟩
  | storeInsert position now | getLookup key | deleteRemove key =>
      simp only [System.step] at member
      split at member <;> exact Or.inl member
  | deleteFree position =>
      simp only [System.step] at member
      split at member
      · exact Or.inl member
      · exact Or.inl member
      · split at member <;> exact Or.inl member

/-- A step other than the write of a Store keeps every backing. -/
theorem System.Faithful.step_of_not_write (faithful : system.Faithful platform geometry)
    (exclusive : (system.step platform action).Exclusive geometry) :
    (system.step platform action).Faithful platform geometry := by
  refine faithful.sameBytes exclusive (System.region_step notWrite) ?_
    (fun _ => System.mem_stores_step notWrite) (fun _ => System.mem_gets_step notWrite)
    (System.writes_step notWrite) (fun _ => System.mem_deliveries_step notWrite)
  intro key entry found
  rcases System.lookup_index_step found with ⟨_, _, pending, -, selected, sameKey, rfl⟩ | old
  · exact Or.inr ⟨pending, List.mem_of_getElem? selected, sameKey, rfl⟩
  · exact Or.inl old

end OtherSteps

/-- The write of a Store keeps every backing unless it takes a block that a Get in
flight has copied. -/
theorem System.Faithful.step_write (small : geometry.totalBlocks ≤ 2 ^ 32) {key : PrefixHash}
    {data : List UInt8} (faithful : system.Faithful platform geometry)
    (undisturbed : system.ReadsUndisturbed (.storeWrite key data))
    (exclusive : (system.step platform (.storeWrite key data)).Exclusive geometry) :
    (system.step platform (.storeWrite key data)).Faithful platform geometry := by
  rcases outcome : system.allocator.allocateAndWrite platform data with ⟨allocator, result⟩
  rcases result with panic | refused | ⟨location, handle⟩
  · simp only [System.step, outcome] at exclusive ⊢
    refine faithful.sameBytes exclusive ?_ (fun _ _ found => Or.inl found)
      (fun _ member => member) (fun _ member => Or.inl member) rfl
      (fun _ member => Or.inl member)
    obtain ⟨-, unchanged | ⟨-, -, -, -, -, -, -, regionKept⟩⟩ :=
      BlockAllocator.allocateAndWrite_eq_error outcome
    · exact congrArg (fun allocator => allocator.pool.region) unchanged.2
    · exact regionKept
  · obtain ⟨rfl, -⟩ := BlockAllocator.allocateAndWrite_eq_none outcome
    simp only [System.step, outcome]
    exact faithful
  · have written := written_of_allocateAndWrite small faithful.exclusive.geometryEq outcome
    have fits := written.fits
    rw [← faithful.exclusive.geometryEq] at fits
    obtain ⟨short, unread⟩ := undisturbed fits
    simp only [System.step, outcome]
    refine faithful.write short written ?_ ?_
    · apply unread (blockOf location)
      rw [written.top, List.getLast?_concat]
      rfl
    · have wrote : System.Effect platform system.allocator system.held allocator
          (location ::ₘ system.held) [⟨key, data, location⟩] := .write outcome
      exact Agent.Exclusive.effect small faithful.exclusive wrote

end Steps

theorem step_faithful {geometry : Geometry} (small : geometry.totalBlocks ≤ 2 ^ 32)
    (platform : Platform) (system : System) (action : Action)
    (undisturbed : system.ReadsUndisturbed action)
    (faithful : system.Faithful platform geometry) :
    (system.step platform action).Faithful platform geometry := by
  obtain ⟨_, effect, -⟩ := System.step_effect platform system action
  have exclusive : (system.step platform action).Exclusive geometry :=
    Exclusive.effect small faithful.exclusive effect
  cases action with
  | storeWrite key data => exact faithful.step_write small undisturbed exclusive
  | _ => exact faithful.step_of_not_write nofun exclusive

/-! ## Runs -/

theorem new_faithful (platform : Platform) (geometry : Geometry) (nodeId : UInt32)
    (capacity : Nat) : (System.new geometry nodeId capacity).Faithful platform geometry := by
  refine ⟨new_exclusive geometry nodeId capacity, ?_, ?_, ?_, ?_⟩
  · intro key entry found
    cases found
  all_goals
    intro item member
    cases member

/-- If no Store takes a block that a Get in flight has copied, and none that fits a block
is of `2 ^ 32` bytes or more, every Get delivers the data of a Store of its own key,
namely the one whose generation its header announced. -/
theorem gets_deliver_their_key (platform : Platform) (geometry : Geometry)
    (small : geometry.totalBlocks ≤ 2 ^ 32) (nodeId : UInt32) (capacity : Nat)
    (actions : List Action)
    (undisturbed : Allows (System.step platform) System.ReadsUndisturbed
      (System.new geometry nodeId capacity) actions) :
    let system := run (System.step platform) (System.new geometry nodeId capacity) actions
    ∀ delivery ∈ system.deliveries, ∃ write ∈ system.writes,
      write.key = delivery.key ∧ write.data = delivery.data ∧
        write.location.generation = delivery.generation := by
  intro system
  have faithful : system.Faithful platform geometry :=
    run_invariant_of_allows (step_faithful small platform)
      (new_faithful platform geometry nodeId capacity) undisturbed
  exact faithful.deliveries

/-- A Get overtaken by the Delete of its key and by a Store that takes the other
block. -/
theorem gets_deliver_their_key_after_delete :
    Geometry.twoBlocks.totalBlocks ≤ 2 ^ 32 ∧
      (run (System.step Platform.release) (System.new Geometry.twoBlocks 0 2)
        [.storeWrite (.ofByte 1) [7], .storeInsert 0 0, .getLookup (.ofByte 1),
          .deleteRemove (.ofByte 1), .storeWrite (.ofByte 2) [8], .deleteFree 0, .storeInsert 0 0,
          .getRead 0]).deliveries = [⟨.ofByte 1, 1, [7]⟩] ∧
      ∃ write ∈ (run (System.step Platform.release) (System.new Geometry.twoBlocks 0 2)
        [.storeWrite (.ofByte 1) [7], .storeInsert 0 0, .getLookup (.ofByte 1),
          .deleteRemove (.ofByte 1), .storeWrite (.ofByte 2) [8], .deleteFree 0, .storeInsert 0 0,
          .getRead 0]).writes,
        write.key = .ofByte 1 ∧ write.data = [7] ∧ write.location.generation = 1 :=
  ⟨by decide, by decide,
    gets_deliver_their_key Platform.release Geometry.twoBlocks (by decide) 0 2 _ (by decide)
      ⟨.ofByte 1, 1, [7]⟩ (by decide)⟩

/-- A Get of key 1 whose block is freed and given to a Store of key 2 delivers
the bytes of key 2 under the generation of key 1. -/
theorem get_delivers_another_key :
    let system := run (System.step Platform.release) (System.new Geometry.twoBlocks 0 2)
      [.storeWrite (.ofByte 1) [7], .storeInsert 0 0, .getLookup (.ofByte 1),
        .deleteRemove (.ofByte 1), .deleteFree 0, .storeWrite (.ofByte 2) [8], .getRead 0]
    system.deliveries = [⟨.ofByte 1, 1, [8]⟩] ∧
      ¬ ∃ write ∈ system.writes, write.key = .ofByte 1 ∧ write.data = [8] := by
  decide

end CmxRdma.Agent
