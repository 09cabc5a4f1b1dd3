import CmxRdma.Agent.MakeRoom
import CmxRdma.Agent.Retention

/-!
Contract: the streams Store accepts, and what a Store that fails leaves behind.

Owns: the acceptance grammar of the upload, that the accepted bytes are the
stored ones, and that every failing exit comes before the first effect.

Does not own: blocks too small for a header, which Store can lose to a panic.
-/

namespace CmxRdma.Agent

open CmxRdma.BlockStore
open CmxRdma.Memory
open CmxRdma.Proto

/-! ## The grammar -/

/-- The bytes a message adds. -/
def messageBytes : StoreRequest → List UInt8
  | ⟨some (.data chunk)⟩ => chunk
  | _ => []

def isHeader : StoreRequest → Bool
  | ⟨some (.header _)⟩ => true
  | _ => false

/-- An upload: a header with a well-formed hash, then data and empty messages. -/
structure Uploads (messages : List StoreRequest) (header : StoreHeader) (data : List UInt8) :
    Prop where
  headed : messages.head? = some ⟨some (.header header)⟩
  sized : header.prefixHash.length = 16
  oneHeader : ∀ message ∈ messages.tail, isHeader message = false
  dataEq : data = messages.tail.flatMap messageBytes

/-- The messages of a stream that the transport delivers without an error. -/
def delivered (messages : List StoreRequest) : StoreStream := messages.map .ok

/-- Data and empty messages are collected as long as the buffer for them can be
allocated. -/
theorem collectData_delivered_iff {platform : Platform} {capacity : Nat}
    (held : capacity ≤ platform.reservable) {collected : List UInt8}
    (inBuffer : collected.length ≤ capacity) (data : List UInt8) (messages : List StoreRequest) :
    CacheService.collectData platform capacity collected (delivered messages) = .ok data ↔
      (∀ message ∈ messages, isHeader message = false) ∧
        data = collected ++ messages.flatMap messageBytes ∧
        CacheService.bufferCapacity capacity collected.length (messages.map messageBytes) ≤
          platform.reservable := by
  induction messages generalizing capacity collected with
  | nil =>
      simp only [delivered, List.map_nil, CacheService.collectData, List.flatMap_nil,
        List.append_nil, List.not_mem_nil, Except.ok.injEq, CacheService.bufferCapacity]
      exact ⟨fun same => ⟨by simp, same.symm, held⟩, fun same => same.2.1.symm⟩
  | cons message rest inductionHypothesis =>
      rw [List.forall_mem_cons, List.flatMap_cons, ← List.append_assoc, and_assoc, List.map_cons,
        CacheService.bufferCapacity]
      rcases message with ⟨_ | header | chunk⟩
      · have unchanged : collected.length + (messageBytes ⟨none⟩).length = collected.length := rfl
        rw [unchanged, CacheService.grownCapacity_of_le inBuffer]
        simp only [delivered, List.map_cons, CacheService.collectData, messageBytes, List.append_nil]
        exact (inductionHypothesis held inBuffer).trans (and_iff_right rfl).symm
      · simp [delivered, CacheService.collectData, isHeader]
      · simp only [delivered, List.map_cons, CacheService.collectData, messageBytes]
        rcases Nat.lt_or_ge platform.reservable
          (CacheService.grownCapacity capacity (collected.length + chunk.length)) with
          refused | granted
        · rw [CacheService.reserve_of_lt held refused]
          refine iff_of_false (fun claimed => by cases claimed) fun claimed => ?_
          exact absurd claimed.2.2.2
            (Nat.not_le.mpr (refused.trans_le (CacheService.le_bufferCapacity _ _ _)))
        · have roomy : (collected ++ chunk).length ≤
              CacheService.grownCapacity capacity (collected.length + chunk.length) := by
            rw [List.length_append]
            exact (CacheService.le_grownCapacity _ _).2
          rw [CacheService.reserve_of_le granted, ← List.length_append]
          exact (inductionHypothesis (by simpa using granted) (by simpa using roomy)).trans
            (and_iff_right rfl).symm

/-- The buffer of an upload can be allocated, as its header declares it and as it
grows with the data. -/
def Buffered (platform : Platform) (messages : List StoreRequest) (header : StoreHeader) : Prop :=
  CacheService.bufferCapacity header.totalSize.toNat 0 (messages.tail.map messageBytes) ≤
    platform.reservable

instance (platform : Platform) (messages : List StoreRequest) (header : StoreHeader) :
    Decidable (Buffered platform messages header) := Nat.decLe _ _

/-- What Store admits: uploads whose buffer can be allocated, and nothing else. -/
theorem storeAdmit_delivered_iff {platform : Platform} {service : CacheService}
    (calm : service.pressureLevel < pressureReject) {messages : List StoreRequest}
    {key : PrefixHash} {data : List UInt8} :
    service.storeAdmit platform (delivered messages) = .ok (key, data) ↔
      ∃ header, Uploads messages header data ∧ Buffered platform messages header ∧
        ∃ prefixHash, parsePrefixHash header.prefixHash = .ok prefixHash ∧
          key = compositeKey platform header.modelId prefixHash := by
  constructor
  · intro admitted
    obtain ⟨header, rest, prefixHash, read, parsed, declared, collected, keyEq⟩ :=
      CacheService.storeAdmit_eq_ok admitted
    have shape := CacheService.readHeader_eq_ok read
    obtain ⟨first, others, rfl, firstEq, rfl⟩ := List.map_eq_cons_iff.mp shape
    obtain rfl : first = ⟨some (.header header)⟩ := Except.ok.inj firstEq
    obtain ⟨oneHeader, dataEq, granted⟩ :=
      (collectData_delivered_iff declared (Nat.zero_le _) data others).mp collected
    exact ⟨header, ⟨rfl, length_of_parsePrefixHash parsed, oneHeader, dataEq⟩, granted, prefixHash,
      parsed, keyEq⟩
  · rintro ⟨header, ⟨headed, sized, oneHeader, dataEq⟩, granted, prefixHash, parsed, rfl⟩
    obtain ⟨others, rfl⟩ := List.head?_eq_some_iff.mp headed
    have declared := (CacheService.le_bufferCapacity _ _ _).trans granted
    have collected : CacheService.collectData platform header.totalSize.toNat []
        (others.map .ok) = .ok data :=
      (collectData_delivered_iff declared (Nat.zero_le _) data others).mpr
        ⟨oneHeader, dataEq, granted⟩
    rw [delivered, List.map_cons, CacheService.storeAdmit_headed platform calm parsed,
      CacheService.withCapacity_of_le declared]
    simp only [Except.bind, collected, Except.map]

/-! ## Acceptance -/

/-- A stream is an upload in one way only. -/
theorem Uploads.unique {messages : List StoreRequest} {header other : StoreHeader}
    {data bytes : List UInt8} (uploads : Uploads messages header data)
    (again : Uploads messages other bytes) : header = other ∧ data = bytes := by
  refine ⟨?_, uploads.dataEq.trans again.dataEq.symm⟩
  have sameHead := uploads.headed.symm.trans again.headed
  simpa using sameHead

section Acceptance

variable {platform : Platform} {service : CacheService} {messages : List StoreRequest}
  {header : StoreHeader} {data : List UInt8} {now : UInt64}

/-- With a free block, an upload is accepted exactly when its buffer can be allocated
and its data fits behind a block header. -/
theorem store_delivered_isOk_iff (calm : service.pressureLevel < pressureReject)
    (available : service.allocator.pool.freeList ≠ []) :
    (service.store platform now (delivered messages)).2.isOk ↔
      ∃ header data, Uploads messages header data ∧ Buffered platform messages header ∧
        BlockHeader.size + data.length ≤ service.allocator.pool.geometry.blockSize := by
  constructor
  · intro succeeds
    cases admitted : service.storeAdmit platform (delivered messages) with
    | error failure =>
        rw [CacheService.store_of_not_admitted admitted] at succeeds
        cases succeeds
    | ok pair =>
        obtain ⟨key, data⟩ := pair
        obtain ⟨header, uploads, buffered, -⟩ := (storeAdmit_delivered_iff calm).mp admitted
        obtain ⟨allocator, location, handle, outcome, -⟩ :=
          CacheService.store_eq_of_isOk admitted succeeds
        obtain ⟨block, -, fits, -⟩ := BlockAllocator.allocateAndWrite_eq_some outcome
        exact ⟨header, data, uploads, buffered, fits⟩
  · rintro ⟨header, data, uploads, buffered, fits⟩
    obtain ⟨prefixHash, parsed⟩ := exists_parsePrefixHash uploads.sized
    have admitted : service.storeAdmit platform (delivered messages) =
        .ok (compositeKey platform header.modelId prefixHash, data) :=
      (storeAdmit_delivered_iff calm).mpr
        ⟨header, uploads, buffered, prefixHash, parsed, rfl⟩
    exact (store_isOk_iff_of_admitted admitted fits now).mpr available

/-- An accepted upload is found under its key, and its block reads back as the
uploaded bytes. -/
theorem store_delivered_stored (calm : service.pressureLevel < pressureReject)
    (narrow : service.allocator.pool.geometry.blockSize < 2 ^ 32)
    (succeeds : (service.store platform now (delivered messages)).2.isOk)
    (uploads : Uploads messages header data) {prefixHash : PrefixHash}
    (parsed : parsePrefixHash header.prefixHash = .ok prefixHash) :
    let after := (service.store platform now (delivered messages)).1
    ∃ location,
      after.index.map.lookup (compositeKey platform header.modelId prefixHash) =
          some ⟨[location], now⟩ ∧
        after.allocator.readVerified platform
          { CacheService.localHandle location with
            poolId := after.allocator.pool.geometry.poolId } = .ok (some data) := by
  have admitted : service.storeAdmit platform (delivered messages) =
      .ok (compositeKey platform header.modelId prefixHash, data) := by
    obtain ⟨declared, bytes, also, buffered, -⟩ :=
      (store_delivered_isOk_iff calm (freeList_of_isOk succeeds)).mp succeeds
    obtain ⟨rfl, rfl⟩ := uploads.unique also
    exact (storeAdmit_delivered_iff calm).mpr
      ⟨header, uploads, buffered, prefixHash, parsed, rfl⟩
  obtain ⟨allocator, location, handle, outcome, afterEq⟩ :=
    CacheService.store_eq_of_isOk admitted succeeds
  obtain ⟨block, popped, fits, rfl, geometryKept, -, -, regionEq⟩ :=
    BlockAllocator.allocateAndWrite_eq_some outcome
  have inside : block < service.allocator.pool.geometry.totalBlocks :=
    service.allocator.pool.freeBelow block (by simp [popped])
  have holds : BlockAllocator.Holds platform allocator.pool.geometry allocator.pool.region block
      data service.allocator.generation := by
    rw [geometryKept, regionEq]
    exact BlockAllocator.holds_written platform _ _ block data _
  intro after
  have sameAllocator : after.allocator = allocator := congrArg CacheService.allocator afterEq
  refine ⟨service.allocator.locationFor block, ?_, ?_⟩
  · rw [show after = _ from afterEq]
    exact AList.lookup_insert _
  · rw [sameAllocator]
    refine BlockAllocator.readVerified_of_holds holds (geometryKept ▸ fits) rfl ?_ (by omega)
    rw [geometryKept]
    exact offset_locationFor inside

/-- Store accepts the uploads that fit in a block and whose buffer can be allocated.
The declared size is the first capacity of that buffer and is not compared with the
data. -/
theorem store_accepts_uploads (platform : Platform) (service : CacheService)
    (calm : service.pressureLevel < pressureReject)
    (available : service.allocator.pool.freeList ≠ [])
    (roomy : 24 ≤ service.allocator.pool.geometry.blockSize)
    (narrow : service.allocator.pool.geometry.blockSize < 2 ^ 32) (now : UInt64)
    (messages : List StoreRequest) :
    let reply := service.store platform now (delivered messages)
    (reply.2.isOk ↔ ∃ header data, Uploads messages header data ∧
        data.length ≤ service.allocator.pool.geometry.blockSize - 24 ∧
        Buffered platform messages header) ∧
      ∀ header data, Uploads messages header data → reply.2.isOk →
        ∃ prefixHash location, parsePrefixHash header.prefixHash = .ok prefixHash ∧
          reply.1.index.map.lookup (compositeKey platform header.modelId prefixHash) =
            some ⟨[location], now⟩ ∧
          reply.1.allocator.readVerified platform
            { CacheService.localHandle location with
              poolId := reply.1.allocator.pool.geometry.poolId } = .ok (some data) := by
  intro reply
  constructor
  · rw [store_delivered_isOk_iff calm available]
    have headerSize : BlockHeader.size = 24 := rfl
    constructor
    · rintro ⟨header, data, uploads, buffered, fits⟩
      exact ⟨header, data, uploads, by omega, buffered⟩
    · rintro ⟨header, data, uploads, fits, buffered⟩
      exact ⟨header, data, uploads, buffered, by omega⟩
  · intro header data uploads succeeds
    obtain ⟨prefixHash, parsed⟩ := exists_parsePrefixHash uploads.sized
    obtain ⟨location, found, readBack⟩ :=
      store_delivered_stored calm narrow succeeds uploads parsed
    exact ⟨prefixHash, location, parsed, found, readBack⟩

end Acceptance

/-- A header that declares one byte, and two chunks around an empty message, on a pool
of two blocks. The second chunk makes the buffer grow. -/
theorem store_accepts_uploads_two_chunks :
    let service := CacheService.new Geometry.twoBlocks 2 "a" false none
    let messages : List StoreRequest :=
      [⟨some (.header ⟨(PrefixHash.ofByte 1).toBytes, 1, ""⟩)⟩, ⟨some (.data [5])⟩, ⟨none⟩,
        ⟨some (.data [6, 7])⟩]
    (service.store .release 0 (delivered messages)).2.isOk := by
  intro service messages
  have uploads : Uploads messages ⟨(PrefixHash.ofByte 1).toBytes, 1, ""⟩ [5, 6, 7] :=
    ⟨rfl, rfl, by decide, rfl⟩
  have buffered : Buffered .release messages ⟨(PrefixHash.ofByte 1).toBytes, 1, ""⟩ := by
    decide
  exact (store_accepts_uploads .release service (by decide) (by decide) (by decide) (by decide) 0
    messages).1.mpr ⟨_, _, uploads, by decide, buffered⟩

/-- A stream that ends after one of five declared bytes is stored as a block of one
byte. -/
theorem store_accepts_short_upload :
    let service := CacheService.new Geometry.twoBlocks 2 "a" false none
    let messages : List StoreRequest :=
      [⟨some (.header ⟨(PrefixHash.ofByte 1).toBytes, 5, ""⟩)⟩, ⟨some (.data [9])⟩]
    ¬ ((service.store .release 0 (delivered messages)).2.isOk ↔
      ∃ header data, Uploads messages header data ∧ data.length = header.totalSize.toNat ∧
        data.length ≤ service.allocator.pool.geometry.blockSize - 24) := by
  intro service messages claimed
  have succeeds : (service.store .release 0 (delivered messages)).2.isOk := by decide +kernel
  obtain ⟨header, data, uploads, declared, -⟩ := claimed.mp succeeds
  have uploaded : Uploads messages ⟨(PrefixHash.ofByte 1).toBytes, 5, ""⟩ [9] :=
    ⟨rfl, rfl, by decide, rfl⟩
  obtain ⟨rfl, rfl⟩ := uploaded.unique uploads
  exact absurd declared (by decide)

/-! ## Failure -/

/-- A Store that fails changes nothing: not the free list, a byte of a block, the
generation counter, the index with its recency order, nor a counter. -/
theorem store_failed_unchanged (platform : Platform) (service : CacheService)
    (roomy : 24 ≤ service.allocator.pool.geometry.blockSize) (now : UInt64)
    (stream : StoreStream) (failure : Failure)
    (failed : (service.store platform now stream).2 = .error failure) :
    (service.store platform now stream).1 = service := by
  cases admitted : service.storeAdmit platform stream with
  | error refusal => rw [CacheService.store_of_not_admitted admitted]
  | ok pair =>
      obtain ⟨key, data⟩ := pair
      rcases outcome : service.allocator.allocateAndWrite platform data with ⟨allocator, result⟩
      rcases result with panic | refused | ⟨location, handle⟩
      · -- only a block too small for a header makes the write panic
        have cramped := (BlockAllocator.allocateAndWrite_eq_error outcome).1
        exact absurd cramped (Nat.not_lt.mpr roomy)
      · rw [CacheService.store_of_refused admitted outcome]
      · rw [CacheService.store_of_written admitted outcome] at failed
        cases failed

/-- A second header in the stream to an agent that holds one block and has served a
Lookup: the block, its entry and the counters stay. -/
theorem store_failed_unchanged_two_headers :
    let header : StoreHeader := ⟨(PrefixHash.ofByte 1).toBytes, 1, ""⟩
    let fresh := CacheService.new Geometry.twoBlocks 2 "a" false none
    let stored := (fresh.store .release 3 (storeMessages header [[7]])).1
    let service := (stored.lookup .release ⟨(PrefixHash.ofByte 1).toBytes, ""⟩).1
    service.index.len = 1 ∧ service.cacheHits = 1 ∧
      (service.store .release 4
        (delivered [⟨some (.header header)⟩, ⟨some (.data [8])⟩, ⟨some (.header header)⟩])).1 =
        service := by
  intro header fresh stored service
  refine ⟨by decide +kernel, by decide +kernel, ?_⟩
  exact store_failed_unchanged .release service (by decide +kernel) 4 _
    (.status (invalidArgument "unexpected header in stream")) (by decide +kernel)

end CmxRdma.Agent
