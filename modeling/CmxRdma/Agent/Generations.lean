import CmxRdma.Agent.Ownership

/-!
Contract: generations detect stale locations.

Owns: the history invariant that ties the generation counter, the write history
and the bytes of every block together, its preservation by every step, the
soundness of comparing generations, and the exact pools on which it fails:
block indices above `2 ^ 32` do not fit a location.

Does not own: readers that skip the comparison; see `CrossKeyRead`.
-/

namespace CmxRdma.Agent

open CmxRdma.BlockStore
open CmxRdma.Lib.ByteRegion
open CmxRdma.Lib.LittleEndian
open CmxRdma.Lib.Transition
open CmxRdma.Memory

/-- The block a location names by its index. -/
def blockOf (location : BlockLocation) : Nat := location.blockIndex.toNat

/-- The block of a location holds the bytes written for `data`. -/
def HoldsAt (platform : Platform) (geometry : Geometry) (allocator : BlockAllocator)
    (location : BlockLocation) (data : List UInt8) : Prop :=
  BlockAllocator.Holds platform geometry allocator.pool.region (blockOf location) data
    location.generation

/-- What a write that returned a location did, in a pool whose block indices
fit the location. -/
structure Written (platform : Platform) (geometry : Geometry)
    (allocator allocator' : BlockAllocator) (data : List UInt8) (location : BlockLocation) :
    Prop where
  top : allocator.pool.freeList = allocator'.pool.freeList ++ [blockOf location]
  placed : Placed geometry location
  fits : BlockHeader.size + data.length ≤ geometry.blockSize
  geometryKept : allocator'.pool.geometry = geometry
  generationEq : location.generation = allocator.generation
  counter : allocator'.generation = allocator.generation + 1
  holds : HoldsAt platform geometry allocator' location data
  frame : ∀ (other : BlockLocation) (stored : List UInt8),
    BlockHeader.size + stored.length ≤ geometry.blockSize → blockOf other ≠ blockOf location →
    HoldsAt platform geometry allocator other stored →
    HoldsAt platform geometry allocator' other stored

theorem written_of_allocateAndWrite {platform : Platform} {geometry : Geometry}
    {allocator allocator' : BlockAllocator} {data : List UInt8} {location : BlockLocation}
    {handle : BlockHandle} (small : geometry.totalBlocks ≤ 2 ^ 32)
    (geometryEq : allocator.pool.geometry = geometry)
    (outcome : allocator.allocateAndWrite platform data =
      (allocator', .ok (some (location, handle)))) :
    Written platform geometry allocator allocator' data location := by
  obtain ⟨block, freeEq, fits, rfl, geometryKept, -, counter, regionEq⟩ :=
    BlockAllocator.allocateAndWrite_eq_some outcome
  subst geometryEq
  have inside : block < allocator.pool.geometry.totalBlocks :=
    allocator.pool.freeBelow block (by simp [freeEq])
  have named : blockOf (allocator.locationFor block) = block := blockIndex_locationFor small inside
  refine ⟨by rw [named, freeEq], placed_locationFor small inside, fits, geometryKept, rfl,
    counter, ?_, ?_⟩
  · unfold HoldsAt
    rw [named, regionEq]
    exact BlockAllocator.holds_written platform _ _ block data _
  · intro other stored storedFits different holds
    unfold HoldsAt
    rw [regionEq]
    exact BlockAllocator.Holds.written_other holds fits storedFits (named ▸ different)

/-- Freeing a block leaves the bytes of every block alone. -/
theorem HoldsAt.deallocate {platform : Platform} {geometry : Geometry}
    {allocator allocator' : BlockAllocator} {handle : BlockHandle} {location : BlockLocation}
    {data : List UInt8} (holds : HoldsAt platform geometry allocator location data)
    (freed : allocator.deallocate handle = .ok allocator') :
    HoldsAt platform geometry allocator' location data := by
  obtain ⟨pool, poolFreed, rfl⟩ := BlockAllocator.deallocate_eq_ok freed
  obtain ⟨-, -, -, -, regionKept⟩ := MemoryPool.deallocate_eq_ok poolFreed
  unfold HoldsAt
  rw [regionKept]
  exact holds

/-! ## The history invariant -/

/-- A write takes a block that no held location names. -/
theorem Written.apart {platform : Platform} {geometry : Geometry}
    {allocator allocator' : BlockAllocator} {data : List UInt8} {location : BlockLocation}
    (written : Written platform geometry allocator allocator' data location)
    {held : Multiset BlockLocation} (exclusive : Exclusive geometry allocator held)
    {other : BlockLocation} (member : other ∈ held) : blockOf other ≠ blockOf location := by
  intro same
  apply exclusive.notMem_freeList member
  rw [written.top]
  exact List.mem_append_right _ (List.mem_singleton.mpr same)

/-- The counter is one ahead of the history, writes are numbered by it, every
block that was ever written holds one of its writes, and every held location's
block holds the write that returned it. -/
structure Recorded (platform : Platform) (geometry : Geometry) (allocator : BlockAllocator)
    (held : Multiset BlockLocation) (writes : List Write) : Prop where
  counter : allocator.generation = UInt64.ofNat (writes.length + 1)
  numbered : ∀ number write, writes[number]? = some write →
    write.location.generation = UInt64.ofNat (number + 1)
  fits : ∀ write ∈ writes, BlockHeader.size + write.data.length ≤ geometry.blockSize
  latest : ∀ write ∈ writes, ∃ last ∈ writes, blockOf last.location = blockOf write.location ∧
    HoldsAt platform geometry allocator last.location last.data
  current : ∀ location ∈ held, ∃ write ∈ writes, write.location = location ∧
    HoldsAt platform geometry allocator location write.data

theorem Recorded.write {platform : Platform} {geometry : Geometry}
    {allocator allocator' : BlockAllocator} {held : Multiset BlockLocation}
    {writes : List Write} {write : Write}
    (exclusive : Exclusive geometry allocator held)
    (recorded : Recorded platform geometry allocator held writes)
    (written : Written platform geometry allocator allocator' write.data write.location) :
    Recorded platform geometry allocator' (write.location ::ₘ held) (writes ++ [write]) := by
  obtain ⟨counter, numbered, fits, latest, current⟩ := recorded
  have added : write ∈ writes ++ [write] := List.mem_append_right _ (List.mem_singleton_self _)
  refine ⟨?_, ?_, ?_, ?_, ?_⟩
  · rw [written.counter, counter, List.length_append, List.length_singleton]
    exact (UInt64.ofNat_add _ 1).symm
  · intro number other found
    rw [List.getElem?_append] at found
    split at found
    · exact numbered number other found
    · rw [List.getElem?_singleton] at found
      split at found
      · obtain rfl : write = other := Option.some.inj found
        have sameNumber : number = writes.length := by omega
        rw [sameNumber, ← counter]
        exact written.generationEq
      · cases found
  · intro other member
    rcases List.mem_append.mp member with old | new
    · exact fits other old
    · rw [List.mem_singleton.mp new]
      exact written.fits
  · intro other member
    by_cases overwritten : blockOf other.location = blockOf write.location
    · exact ⟨write, added, overwritten.symm, written.holds⟩
    · rcases List.mem_append.mp member with old | new
      · obtain ⟨last, lastMember, sameBlock, holds⟩ := latest other old
        refine ⟨last, List.mem_append_left _ lastMember, sameBlock, ?_⟩
        exact written.frame _ _ (fits last lastMember)
          (fun same => overwritten (sameBlock.symm.trans same)) holds
      · exact absurd (congrArg (fun write => blockOf write.location) (List.mem_singleton.mp new))
          overwritten
  · intro location member
    rcases Multiset.mem_cons.mp member with rfl | old
    · exact ⟨write, added, rfl, written.holds⟩
    · obtain ⟨other, otherMember, sameLocation, holds⟩ := current location old
      exact ⟨other, List.mem_append_left _ otherMember, sameLocation,
        written.frame _ _ (fits other otherMember) (written.apart exclusive old) holds⟩

theorem Recorded.effect {platform : Platform} {geometry : Geometry}
    {allocator allocator' : BlockAllocator} {held held' : Multiset BlockLocation}
    {writes written : List Write} (small : geometry.totalBlocks ≤ 2 ^ 32)
    (roomy : BlockHeader.size ≤ geometry.blockSize)
    (exclusive : Exclusive geometry allocator held)
    (recorded : Recorded platform geometry allocator held writes)
    (effect : System.Effect platform allocator held allocator' held' written) :
    Recorded platform geometry allocator' held' (writes ++ written) := by
  cases effect with
  | quiet fewer =>
      obtain ⟨counter, numbered, fits, latest, current⟩ := recorded
      rw [List.append_nil]
      exact ⟨counter, numbered, fits, latest,
        fun location member => current location (Multiset.mem_of_le fewer member)⟩
  | @write _ _ key data location handle outcome =>
      exact @Recorded.write _ _ _ _ _ _ ⟨key, data, location⟩ exclusive recorded
        (written_of_allocateAndWrite small exclusive.geometryEq outcome)
  | @lose _ _ data panic outcome =>
      have tooSmall := (BlockAllocator.allocateAndWrite_eq_error outcome).1
      rw [exclusive.geometryEq] at tooSmall
      exact absurd roomy (not_le.mpr tooSmall)
  | @free _ _ location freed =>
      obtain ⟨counter, numbered, fits, latest, current⟩ := recorded
      have sameCounter : allocator'.generation = allocator.generation := by
        obtain ⟨pool, -, rfl⟩ := BlockAllocator.deallocate_eq_ok freed
        rfl
      rw [List.append_nil]
      refine ⟨sameCounter.trans counter, numbered, fits, ?_, ?_⟩
      · intro write member
        obtain ⟨last, lastMember, sameBlock, holds⟩ := latest write member
        exact ⟨last, lastMember, sameBlock, holds.deallocate freed⟩
      · intro other member
        obtain ⟨write, writeMember, sameLocation, holds⟩ :=
          current other (Multiset.mem_cons_of_mem member)
        exact ⟨write, writeMember, sameLocation, holds.deallocate freed⟩

/-- Both invariants as a property of a system. -/
def System.Recorded (platform : Platform) (geometry : Geometry) (system : System) : Prop :=
  system.Exclusive geometry ∧
    Agent.Recorded platform geometry system.allocator system.held system.writes

theorem run_recorded {geometry : Geometry} (small : geometry.totalBlocks ≤ 2 ^ 32)
    (roomy : BlockHeader.size ≤ geometry.blockSize) (platform : Platform) (nodeId : UInt32)
    (capacity : Nat) (actions : List Action) :
    (run (System.step platform) (System.new geometry nodeId capacity) actions).Recorded platform
      geometry := by
  refine run_invariant ?_ ⟨new_exclusive geometry nodeId capacity, ?_⟩ actions
  · rintro system action ⟨exclusive, recorded⟩
    obtain ⟨written, effect, writesEq⟩ := System.step_effect platform system action
    refine ⟨Exclusive.effect small exclusive effect, ?_⟩
    rw [writesEq]
    exact recorded.effect small roomy exclusive effect
  · refine ⟨rfl, ?_, ?_, ?_, ?_⟩
    · intro number write found
      cases found
    · intro write member
      cases member
    · intro write member
      cases member
    · intro location member
      exact absurd member (Multiset.notMem_zero location)

/-! ## Soundness -/

theorem System.Effect.written_length_le {platform : Platform}
    {allocator allocator' : BlockAllocator} {held held' : Multiset BlockLocation}
    {written : List Write}
    (effect : System.Effect platform allocator held allocator' held' written) :
    written.length ≤ 1 := by
  cases effect <;> simp

/-- Every step writes at most once. -/
theorem System.writes_length_le (platform : Platform) (system : System) (actions : List Action) :
    (run (System.step platform) system actions).writes.length ≤
      system.writes.length + actions.length := by
  induction actions generalizing system with
  | nil => exact le_rfl
  | cons action rest inductionHypothesis =>
      obtain ⟨written, effect, writesEq⟩ := System.step_effect platform system action
      have atMostOne := effect.written_length_le
      have afterRest := inductionHypothesis (System.step platform system action)
      rw [writesEq, List.length_append] at afterRest
      rw [run_cons, List.length_cons]
      omega

/-- Two writes of a history below the wrap of the counter never share a
generation. -/
theorem Recorded.eq_of_generation_eq {platform : Platform} {geometry : Geometry}
    {allocator : BlockAllocator} {held : Multiset BlockLocation} {writes : List Write}
    (recorded : Recorded platform geometry allocator held writes)
    (few : writes.length < 2 ^ 64 - 1) {left right : Write} (leftMember : left ∈ writes)
    (rightMember : right ∈ writes)
    (same : left.location.generation = right.location.generation) : left = right := by
  obtain ⟨leftNumber, leftAt⟩ := List.mem_iff_getElem?.mp leftMember
  obtain ⟨rightNumber, rightAt⟩ := List.mem_iff_getElem?.mp rightMember
  have leftInside := (List.getElem?_eq_some_iff.mp leftAt).1
  have rightInside := (List.getElem?_eq_some_iff.mp rightAt).1
  rw [recorded.numbered leftNumber left leftAt, recorded.numbered rightNumber right rightAt] at same
  have sameNumber : leftNumber = rightNumber := by
    have values := congrArg UInt64.toNat same
    simp only [UInt64.toNat_ofNat'] at values
    rw [Nat.mod_eq_of_lt (by omega), Nat.mod_eq_of_lt (by omega)] at values
    omega
  subst sameNumber
  exact Option.some.inj (leftAt.symm.trans rightAt)

/-- Comparing generations is sound in a state: a block whose header carries the
generation of a returned location holds exactly what was written for it, and
every indexed location passes the comparison. -/
def System.GenerationsSound (platform : Platform) (geometry : Geometry) (system : System) : Prop :=
  (∀ write ∈ system.writes, ∀ header,
    BlockAllocator.headerIn geometry system.allocator.pool.region (blockOf write.location) =
        some header →
      header.generation = write.location.generation →
      BlockAllocator.Holds platform geometry system.allocator.pool.region
        (blockOf write.location) write.data write.location.generation) ∧
    ∀ location ∈ system.index.locations, ∃ header,
      BlockAllocator.headerIn geometry system.allocator.pool.region (blockOf location) =
          some header ∧
        header.generation = location.generation

theorem generationsSound_of_recorded {platform : Platform} {geometry : Geometry}
    {system : System}
    (recorded : Recorded platform geometry system.allocator system.held system.writes)
    (few : system.writes.length < 2 ^ 64 - 1) : system.GenerationsSound platform geometry := by
  refine ⟨?_, ?_⟩
  · intro write member header headerEq sameGeneration
    obtain ⟨last, lastMember, sameBlock, holds⟩ := recorded.latest write member
    have lastHeader := BlockAllocator.headerIn_of_holds holds (recorded.fits last lastMember)
    rw [sameBlock, headerEq] at lastHeader
    have lastGeneration : header.generation = last.location.generation := by
      rw [Option.some.inj lastHeader]
      rfl
    have sameWrite := recorded.eq_of_generation_eq few lastMember member
      (lastGeneration.symm.trans sameGeneration)
    subst sameWrite
    exact holds
  · intro location member
    have isHeld := System.mem_held_of_mem_locations member
    obtain ⟨write, writeMember, sameLocation, holds⟩ := recorded.current location isHeld
    exact ⟨_, BlockAllocator.headerIn_of_holds holds (recorded.fits write writeMember), rfl⟩

/-! ## Pools whose blocks hold no header -/

theorem System.Effect.nothing {platform : Platform} {allocator allocator' : BlockAllocator}
    {held held' : Multiset BlockLocation} {written : List Write}
    (cramped : allocator.pool.geometry.blockSize < BlockHeader.size) (nothingHeld : held = 0)
    (effect : System.Effect platform allocator held allocator' held' written) :
    allocator'.pool.geometry = allocator.pool.geometry ∧ written = [] ∧ held' = 0 := by
  cases effect with
  | quiet fewer => exact ⟨rfl, rfl, Multiset.le_zero.mp (nothingHeld ▸ fewer)⟩
  | write outcome =>
      obtain ⟨-, -, fits, -⟩ := BlockAllocator.allocateAndWrite_eq_some outcome
      omega
  | lose outcome =>
      obtain ⟨-, unchanged | ⟨-, -, -, -, geometryKept, -⟩⟩ :=
        BlockAllocator.allocateAndWrite_eq_error outcome
      · rw [unchanged.2]
        exact ⟨rfl, rfl, nothingHeld⟩
      · exact ⟨geometryKept, rfl, nothingHeld⟩
  | free freed => exact absurd nothingHeld Multiset.cons_ne_zero

/-- Nothing was ever written and nothing is held. -/
def System.NothingWritten (geometry : Geometry) (system : System) : Prop :=
  system.allocator.pool.geometry = geometry ∧ system.writes = [] ∧ system.held = 0

theorem run_nothingWritten {geometry : Geometry} (cramped : geometry.blockSize < BlockHeader.size)
    (platform : Platform) (nodeId : UInt32) (capacity : Nat) (actions : List Action) :
    (run (System.step platform) (System.new geometry nodeId capacity) actions).NothingWritten
      geometry := by
  refine run_invariant ?_ ⟨rfl, rfl, rfl⟩ actions
  rintro system action ⟨geometryEq, noWrites, nothingHeld⟩
  obtain ⟨written, effect, writesEq⟩ := System.step_effect platform system action
  obtain ⟨geometryKept, nothingNew, stillNothing⟩ :=
    effect.nothing (geometryEq ▸ cramped) nothingHeld
  refine ⟨geometryKept.trans geometryEq, ?_, stillNothing⟩
  rw [writesEq, noWrites, nothingNew, List.append_nil]

theorem System.NothingWritten.generationsSound {platform : Platform} {geometry : Geometry}
    {system : System} (nothing : system.NothingWritten geometry) :
    system.GenerationsSound platform geometry := by
  obtain ⟨-, noWrites, nothingHeld⟩ := nothing
  refine ⟨?_, ?_⟩
  · intro write member
    rw [noWrites] at member
    cases member
  · intro location member
    have isHeld := System.mem_held_of_mem_locations member
    rw [nothingHeld] at isHeld
    exact absurd isHeld (Multiset.notMem_zero location)

/-! ## Pools whose block indices do not fit -/

/-- A location names its block modulo `2 ^ 32`. -/
theorem blockOf_locationFor_ne {block : Nat} (wide : 2 ^ 32 ≤ block)
    (allocator : BlockAllocator) : blockOf (allocator.locationFor block) ≠ block := by
  simp only [blockOf, BlockAllocator.locationFor, UInt32.toNat_ofNat']
  intro same
  have := Nat.mod_lt block (show 0 < 2 ^ 32 by decide)
  omega

/-- After one write into a zeroed region every other block has a header of zeros. -/
theorem headerIn_written_other {geometry : Geometry} (platform : Platform) (nodeId : UInt32)
    {block other : Nat} {data : List UInt8} (generation : UInt64)
    (fits : BlockHeader.size + data.length ≤ geometry.blockSize) (different : other ≠ block) :
    BlockAllocator.headerIn geometry
      (writeBytes
        (writeBytes (BlockAllocator.new (MemoryPool.fresh geometry) nodeId).pool.region
          (block * geometry.blockSize)
          ((BlockHeader.new platform data generation).writeTo platform))
        (block * geometry.blockSize + BlockHeader.size) data) other = some ⟨0, 0, 0, 0⟩ := by
  have zeroed : readBytes (BlockAllocator.new (MemoryPool.fresh geometry) nodeId).pool.region
      (other * geometry.blockSize) geometry.blockSize = List.replicate geometry.blockSize 0 := by
    simp [readBytes, BlockAllocator.new, MemoryPool.fresh]
  rw [BlockAllocator.headerIn,
    BlockAllocator.readBytes_written_other platform _ generation fits le_rfl different, zeroed,
    BlockHeader.readFrom_replicate_zero (by omega)]

/-- The first Store of a pool with more than `2 ^ 32` blocks takes the last
block and names another one, which was never written. -/
theorem first_store_unsound {geometry : Geometry} (wide : 2 ^ 32 < geometry.totalBlocks)
    (roomy : BlockHeader.size ≤ geometry.blockSize) (platform : Platform) (nodeId : UInt32)
    (capacity : Nat) (key : PrefixHash) :
    ¬ (run (System.step platform) (System.new geometry nodeId capacity)
      [.storeWrite key [], .storeInsert 0 0]).GenerationsSound platform geometry := by
  let fresh := BlockAllocator.new (MemoryPool.fresh geometry) nodeId
  obtain ⟨allocator, location, handle, outcome⟩ :=
    BlockAllocator.exists_allocateAndWrite_of_fits platform
      (show BlockHeader.size + ([] : List UInt8).length ≤ fresh.pool.geometry.blockSize from roomy)
      (MemoryPool.freeList_fresh_ne_nil geometry)
  obtain ⟨block, freeEq, fits, rfl, -, -, -, regionEq⟩ :=
    BlockAllocator.allocateAndWrite_eq_some outcome
  have lastBlock : block = geometry.totalBlocks - 1 := MemoryPool.top_of_freeList_fresh freeEq
  have untouched : BlockAllocator.headerIn geometry allocator.pool.region
      (blockOf (fresh.locationFor block)) = some ⟨0, 0, 0, 0⟩ := by
    rw [regionEq]
    exact headerIn_written_other platform nodeId fresh.generation fits
      (blockOf_locationFor_ne (by omega) fresh)
  intro sound
  have written : System.step platform (System.new geometry nodeId capacity) (.storeWrite key []) =
      { System.new geometry nodeId capacity with
        allocator := allocator
        stores := [⟨key, fresh.locationFor block⟩]
        writes := [⟨key, [], fresh.locationFor block⟩] } := by
    have freshAllocator : (System.new geometry nodeId capacity).allocator = fresh := rfl
    simp only [System.step, freshAllocator, outcome]
    rfl
  have indexed : fresh.locationFor block ∈
      ((BlockIndex.new capacity).insert key [fresh.locationFor block] 0).1.locations := by
    rw [BlockIndex.insert_locations_eq]
    exact Multiset.mem_add.mpr (Or.inl (List.mem_singleton_self _))
  rw [run_cons, run_cons, run_nil, written] at sound
  obtain ⟨header, headerEq, generationEq⟩ := sound.2 (fresh.locationFor block) indexed
  have headerZero : some header = some ⟨0, 0, 0, 0⟩ := headerEq.symm.trans untouched
  rw [Option.some.inj headerZero] at generationEq
  exact absurd generationEq (show (0 : UInt64) ≠ 1 by decide)

/-- Comparing generations is sound in every run with fewer than `2 ^ 64 - 1`
writes exactly when every block index fits a location, or no block can hold a
header so that no location is ever returned. -/
theorem generations_sound_iff (platform : Platform) (geometry : Geometry) (nodeId : UInt32)
    (capacity : Nat) :
    (∀ actions,
      (run (System.step platform) (System.new geometry nodeId capacity) actions).writes.length <
          2 ^ 64 - 1 →
        (run (System.step platform) (System.new geometry nodeId capacity)
          actions).GenerationsSound platform geometry) ↔
      geometry.totalBlocks ≤ 2 ^ 32 ∨ geometry.blockSize < BlockHeader.size := by
  constructor
  · intro sound
    by_contra neither
    rw [not_or, not_le, not_lt] at neither
    refine first_store_unsound neither.1 neither.2 platform nodeId capacity (.ofByte 0)
      (sound [.storeWrite (.ofByte 0) [], .storeInsert 0 0] ?_)
    exact lt_of_le_of_lt (System.writes_length_le platform _ _)
      (show 0 + 2 < 2 ^ 64 - 1 by decide)
  · rintro (small | cramped) actions few
    · by_cases roomy : BlockHeader.size ≤ geometry.blockSize
      · exact generationsSound_of_recorded
          (run_recorded small roomy platform nodeId capacity actions).2 few
      · exact (run_nothingWritten (not_le.mp roomy) platform nodeId capacity
          actions).generationsSound
    · exact (run_nothingWritten cramped platform nodeId capacity actions).generationsSound

/-- One block more than a `u32` can number, each just large enough for a
header. -/
def wideGeometry : Geometry where
  poolId := 0
  totalSize := (2 ^ 32 + 1) * 24
  blockSize := 24
  totalBlocks := 2 ^ 32 + 1
  blockSizePos := by decide
  sizeEq := rfl
  blocksPos := by decide
  sizeLt := by decide

/-- Storing no bytes under one key in such a pool indexes a location whose block
carries another generation. -/
theorem generations_unsound_wide :
    (run (System.step Platform.release) (System.new wideGeometry 0 (2 ^ 32 + 1))
        [.storeWrite (.ofByte 0) [], .storeInsert 0 0]).writes.length < 2 ^ 64 - 1 ∧
      ¬ (run (System.step Platform.release) (System.new wideGeometry 0 (2 ^ 32 + 1))
        [.storeWrite (.ofByte 0) [], .storeInsert 0 0]).GenerationsSound Platform.release
          wideGeometry :=
  ⟨lt_of_le_of_lt (System.writes_length_le Platform.release _ _) (by decide),
    first_store_unsound (by decide) (by decide) Platform.release 0 (2 ^ 32 + 1) (.ofByte 0)⟩

end CmxRdma.Agent
