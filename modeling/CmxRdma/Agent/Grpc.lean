import Mathlib.Data.UInt
import CmxRdma.Agent.Proto
import CmxRdma.Agent.RemoteIndex
import CmxRdma.BlockStore.Allocator
import CmxRdma.BlockStore.Index

/-!
Contract: `cmx-agent/src/grpc.rs`, the cache service.

Owns: the service state, the composite index key, the five cache requests and
`stats` as whole calls, and the pieces a concurrent schedule can interleave:
admitting a Store, reading the blocks of a Get, freeing the blocks of a Delete.
A handler returns the state it leaves behind and its answer; a panic keeps the
effects made before it. A Store whose buffer cannot be allocated aborts the
process: its answer says so, and what a run does afterwards is about no agent.

Does not own: metrics, tracing and the hash ring, which no answer depends on;
how the monitor picks a pressure level and the watch a remote index, which are
events with arbitrary values here; allocations other than the buffer of a Store,
which are taken to succeed; a client that stops reading a Get; time, which is an
argument.
-/

namespace CmxRdma.Agent

open CmxRdma.BlockStore
open CmxRdma.Memory
open CmxRdma.Proto

/-- `PRESSURE_REJECT` of `pressure.rs`. -/
def pressureReject : UInt8 := 3

/-- A spawned `publish_block` task. -/
structure PublishTask where
  prefixHash : PrefixHash
  offset : UInt64
  size : UInt64
  generation : UInt64
deriving DecidableEq

/-- `CacheService` with the fields of its `AgentState`. `metadata` tells whether
an etcd client is configured; `publishTasks` are the tasks spawned so far. -/
structure CacheService where
  allocator : BlockAllocator
  index : BlockIndex
  nodeId : String
  metadata : Bool
  publishTasks : List PublishTask
  pressureLevel : UInt8
  remoteIndex : Option RemoteIndex
  cacheHits : UInt64
  cacheMisses : UInt64
  evictions : UInt64

def invalidArgument (message : String) : Status := ⟨.invalidArgument, message⟩

def resourceExhausted (message : String) : Status := ⟨.resourceExhausted, message⟩

def parsePrefixHash (bytes : List UInt8) : Except Status PrefixHash :=
  match PrefixHash.ofBytes? bytes with
  | some prefixHash => .ok prefixHash
  | none => .error (invalidArgument "prefix_hash must be exactly 16 bytes")

theorem exists_parsePrefixHash {bytes : List UInt8} (sized : bytes.length = 16) :
    ∃ prefixHash, parsePrefixHash bytes = .ok prefixHash := by
  simp only [parsePrefixHash, PrefixHash.ofBytes?, dif_pos sized]
  exact ⟨_, rfl⟩

theorem parsePrefixHash_of_malformed {bytes : List UInt8} (malformed : bytes.length ≠ 16) :
    parsePrefixHash bytes = .error (invalidArgument "prefix_hash must be exactly 16 bytes") := by
  rw [parsePrefixHash, PrefixHash.ofBytes?, dif_neg malformed]

theorem length_of_parsePrefixHash {bytes : List UInt8} {prefixHash : PrefixHash}
    (parsed : parsePrefixHash bytes = .ok prefixHash) : bytes.length = 16 := by
  by_contra malformed
  rw [parsePrefixHash_of_malformed malformed] at parsed
  cases parsed

def compositeKey (platform : Platform) (modelId : String) (prefixHash : PrefixHash) :
    PrefixHash :=
  if modelId.isEmpty then prefixHash
  else platform.sha256Truncated (utf8 modelId ++ prefixHash.toBytes)

namespace CacheService

/-- A service over a fresh pool and index. -/
def new (geometry : Geometry) (capacity : Nat) (nodeId : String) (metadata : Bool)
    (remoteIndex : Option RemoteIndex) : CacheService where
  allocator := BlockAllocator.new (MemoryPool.fresh geometry) 0
  index := BlockIndex.new capacity
  nodeId := nodeId
  metadata := metadata
  publishTasks := []
  pressureLevel := 0
  remoteIndex := remoteIndex
  cacheHits := 0
  cacheMisses := 0
  evictions := 0

def countHit (service : CacheService) : CacheService :=
  { service with cacheHits := service.cacheHits + 1 }

def countMiss (service : CacheService) : CacheService :=
  { service with cacheMisses := service.cacheMisses + 1 }

/-- The wire form of an index location. -/
def protoLocation (service : CacheService) (location : BlockStore.BlockLocation) :
    Proto.BlockLocation where
  nodeId := service.nodeId
  offset := location.offset
  size := location.blockSize
  generationId := location.generation

/-! ## Lookup -/

/-- The first remote entry for a key, if there is a remote index and it has one. -/
def remoteFirst (service : CacheService) (key : PrefixHash) : Option RemoteBlockInfo :=
  match service.remoteIndex with
  | none => none
  | some remote =>
      match remote.lookup key with
      | none => none
      | some entries => entries.head?

def lookup (platform : Platform) (service : CacheService) (request : LookupRequest) :
    CacheService × Except Status LookupResponse :=
  match parsePrefixHash request.prefixHash with
  | .error status => (service, .error status)
  | .ok prefixHash =>
      let key := compositeKey platform request.modelId prefixHash
      match service.index.lookup key with
      | (index, some entry) =>
          ({ service with index := index }.countHit,
            .ok ⟨true, entry.blocks.map service.protoLocation, true⟩)
      | (index, none) =>
          let missed := { service with index := index }
          match missed.remoteFirst key with
          | some first =>
              (missed.countHit,
                .ok ⟨true, [⟨first.nodeId, first.offset, first.size, first.generation⟩], false⟩)
          | none => (missed.countMiss, .ok ⟨false, [], false⟩)

/-- The loop of `batch_lookup`: a malformed hash ends the call with an error
after the hashes before it were looked up. -/
def batchLookupFrom (platform : Platform) (modelId : String) :
    CacheService → List (List UInt8) → List Bool → List Proto.BlockLocation →
      CacheService × Except Status BatchLookupResponse
  | service, [], found, blocks => (service, .ok ⟨found, blocks⟩)
  | service, rawHash :: rest, found, blocks =>
      match parsePrefixHash rawHash with
      | .error status => (service, .error status)
      | .ok prefixHash =>
          match service.index.lookup (compositeKey platform modelId prefixHash) with
          | (index, some entry) =>
              batchLookupFrom platform modelId { service with index := index }.countHit rest
                (found ++ [true]) (blocks ++ entry.blocks.map service.protoLocation)
          | (index, none) =>
              batchLookupFrom platform modelId { service with index := index }.countMiss rest
                (found ++ [false]) blocks

def batchLookup (platform : Platform) (service : CacheService) (request : BatchLookupRequest) :
    CacheService × Except Status BatchLookupResponse :=
  batchLookupFrom platform request.modelId service request.prefixHashes [] []

/-! ## Store -/

/-- The first message of a Store must be its header. -/
def readHeader : StoreStream → Except Status (StoreHeader × StoreStream)
  | [] => .error (invalidArgument "empty stream")
  | .error status :: _ => .error status
  | .ok ⟨some (.header header)⟩ :: rest => .ok (header, rest)
  | .ok _ :: _ => .error (invalidArgument "first message must be a header")

/-- `Vec::with_capacity`: too large a number panics, and a buffer the allocator
does not have ends the process. -/
def withCapacity (platform : Platform) (capacity : Nat) : Except Failure Nat :=
  if isizeMax < capacity then .error (.panic .capacityOverflow)
  else if platform.reservable < capacity then .error .abort
  else .ok capacity

/-- The capacity of a `Vec<u8>` once it has room for `needed` bytes: one that is too
small is at least doubled. -/
def grownCapacity (capacity needed : Nat) : Nat :=
  if needed ≤ capacity then capacity else max 8 (max (2 * capacity) needed)

/-- `Vec::reserve` of `extend_from_slice`. Twice the capacity of a buffer that was
granted, and the buffer together with a chunk that is in memory, are within
`isize::MAX`: only the allocator can refuse. -/
def reserve (platform : Platform) (capacity needed : Nat) : Except Failure Nat :=
  if capacity < grownCapacity capacity needed ∧
      platform.reservable < grownCapacity capacity needed then .error .abort
  else .ok (grownCapacity capacity needed)

/-- Collect the data chunks of the remaining messages in a buffer of the given
capacity. -/
def collectData (platform : Platform) (capacity : Nat) (data : List UInt8) : StoreStream →
    Except Failure (List UInt8)
  | [] => .ok data
  | .error status :: _ => .error (.status status)
  | .ok ⟨some (.data chunk)⟩ :: rest =>
      match reserve platform capacity (data.length + chunk.length) with
      | .error failure => .error failure
      | .ok grown => collectData platform grown (data ++ chunk) rest
  | .ok ⟨some (.header _)⟩ :: _ =>
      .error (.status (invalidArgument "unexpected header in stream"))
  | .ok ⟨none⟩ :: rest => collectData platform capacity data rest

/-- The part of Store before the allocator is called: pressure, header, buffer
and data. It reads the state and changes nothing. -/
def storeAdmit (platform : Platform) (service : CacheService)
    (stream : StoreStream) : Except Failure (PrefixHash × List UInt8) := do
  if service.pressureLevel ≥ pressureReject then
    throw (.status (resourceExhausted "memory pressure too high — store rejected"))
  let (header, rest) ← (readHeader stream).mapError .status
  let prefixHash ← (parsePrefixHash header.prefixHash).mapError .status
  let key := compositeKey platform header.modelId prefixHash
  let capacity ← withCapacity platform header.totalSize.toNat
  let data ← collectData platform capacity [] rest
  return (key, data)

/-- The part of Store after the block was written: index, counter, publish
task. -/
def storeCommit (service : CacheService) (key : PrefixHash)
    (location : BlockStore.BlockLocation) (now : UInt64) : CacheService × StoreResponse :=
  let (index, evicted) := service.index.insert key [location] now
  let task : PublishTask := ⟨key, location.offset, location.blockSize, location.generation⟩
  ({ service with
      index := index
      evictions := service.evictions + UInt64.ofNat evicted.length
      publishTasks :=
        if service.metadata then service.publishTasks ++ [task] else service.publishTasks },
    ⟨true, "", location.generation⟩)

def store (platform : Platform) (service : CacheService) (now : UInt64)
    (stream : StoreStream) : CacheService × Except Failure StoreResponse :=
  match storeAdmit platform service stream with
  | .error failure => (service, .error failure)
  | .ok (key, data) =>
      match service.allocator.allocateAndWrite platform data with
      | (allocator, .error panic) =>
          ({ service with allocator := allocator }, .error (.panic panic))
      | (allocator, .ok none) =>
          ({ service with allocator := allocator },
            .error (.status (resourceExhausted "memory pool exhausted")))
      | (allocator, .ok (some (location, _))) =>
          let committed :=
            { service with allocator := allocator }.storeCommit key location now
          (committed.1, .ok committed.2)

/-- The capacity a buffer of `length` bytes ends with after the given chunks. -/
def bufferCapacity (capacity length : Nat) : List (List UInt8) → Nat
  | [] => capacity
  | chunk :: rest =>
      bufferCapacity (grownCapacity capacity (length + chunk.length)) (length + chunk.length) rest

theorem le_grownCapacity (capacity needed : Nat) :
    capacity ≤ grownCapacity capacity needed ∧ needed ≤ grownCapacity capacity needed := by
  unfold grownCapacity
  split <;> omega

theorem grownCapacity_of_le {capacity needed : Nat} (enough : needed ≤ capacity) :
    grownCapacity capacity needed = capacity := if_pos enough

theorem le_bufferCapacity (capacity length : Nat) (chunks : List (List UInt8)) :
    capacity ≤ bufferCapacity capacity length chunks := by
  induction chunks generalizing capacity length with
  | nil => exact le_refl _
  | cons chunk rest inductionHypothesis =>
      exact (le_grownCapacity capacity _).1.trans (inductionHypothesis _ _)

theorem reserve_of_le {platform : Platform} {capacity needed : Nat}
    (granted : grownCapacity capacity needed ≤ platform.reservable) :
    reserve platform capacity needed = .ok (grownCapacity capacity needed) :=
  if_neg fun refused => absurd granted (Nat.not_le.mpr refused.2)

theorem reserve_of_lt {platform : Platform} {capacity needed : Nat}
    (held : capacity ≤ platform.reservable)
    (refused : platform.reservable < grownCapacity capacity needed) :
    reserve platform capacity needed = .error .abort :=
  if_pos ⟨held.trans_lt refused, refused⟩

/-- Chunks are collected as long as the buffer for them can be allocated. -/
theorem collectData_map_data {platform : Platform} {capacity : Nat}
    (held : capacity ≤ platform.reservable) (data : List UInt8) (chunks : List (List UInt8)) :
    collectData platform capacity data (chunks.map fun chunk => .ok ⟨some (.data chunk)⟩) =
      if bufferCapacity capacity data.length chunks ≤ platform.reservable then
        .ok (data ++ chunks.flatten)
      else .error .abort := by
  induction chunks generalizing capacity data with
  | nil => simp [collectData, bufferCapacity, held]
  | cons chunk rest inductionHypothesis =>
      rw [List.map_cons, collectData, bufferCapacity, List.flatten_cons, ← List.append_assoc]
      rcases Nat.lt_or_ge platform.reservable
        (grownCapacity capacity (data.length + chunk.length)) with refused | granted
      · rw [reserve_of_lt held refused, if_neg]
        exact Nat.not_le.mpr (refused.trans_le (le_bufferCapacity _ _ _))
      · rw [reserve_of_le granted]
        simpa only [List.length_append] using inductionHypothesis granted (data ++ chunk)

/-- What was declared in full needs no second buffer, whatever the allocator
grants. -/
theorem collectData_of_declared (platform : Platform) {capacity : Nat} {data : List UInt8}
    {chunks : List (List UInt8)} (declared : data.length + chunks.flatten.length ≤ capacity) :
    collectData platform capacity data (chunks.map fun chunk => .ok ⟨some (.data chunk)⟩) =
      .ok (data ++ chunks.flatten) := by
  induction chunks generalizing data with
  | nil => simp [collectData]
  | cons chunk rest inductionHypothesis =>
      rw [List.flatten_cons, List.length_append] at declared
      have kept : reserve platform capacity (data.length + chunk.length) = .ok capacity := by
        rw [reserve, grownCapacity_of_le (by omega),
          if_neg (fun refused => Nat.lt_irrefl _ refused.1)]
      rw [List.map_cons, collectData, kept, List.flatten_cons, ← List.append_assoc]
      exact inductionHypothesis (by rw [List.length_append]; omega)

theorem readHeader_eq_ok {stream rest : StoreStream} {header : StoreHeader}
    (read : readHeader stream = .ok (header, rest)) :
    stream = .ok ⟨some (.header header)⟩ :: rest := by
  unfold readHeader at read
  split at read
  · cases read
  · cases read
  · cases read
    rfl
  · cases read

theorem withCapacity_eq_ok {platform : Platform} {declared capacity : Nat}
    (reserved : withCapacity platform declared = .ok capacity) :
    capacity = declared ∧ declared ≤ platform.reservable := by
  unfold withCapacity at reserved
  split at reserved
  · cases reserved
  · split at reserved
    · cases reserved
    · cases reserved
      exact ⟨rfl, by omega⟩

theorem withCapacity_of_le {platform : Platform} {declared : Nat}
    (granted : declared ≤ platform.reservable) :
    withCapacity platform declared = .ok declared := by
  have bounded := platform.reservableLe
  rw [withCapacity, if_neg (by omega), if_neg (by omega)]

/-- What an admitted Store was read from. -/
theorem storeAdmit_eq_ok {platform : Platform} {service : CacheService} {stream : StoreStream}
    {key : PrefixHash} {data : List UInt8}
    (admitted : service.storeAdmit platform stream = .ok (key, data)) :
    ∃ header rest prefixHash, readHeader stream = .ok (header, rest) ∧
      parsePrefixHash header.prefixHash = .ok prefixHash ∧
      header.totalSize.toNat ≤ platform.reservable ∧
      collectData platform header.totalSize.toNat [] rest = .ok data ∧
      key = compositeKey platform header.modelId prefixHash := by
  unfold storeAdmit at admitted
  split at admitted
  · cases admitted
  · cases read : readHeader stream with
    | error status => simp [read, Except.mapError, bind, Except.bind] at admitted
    | ok pair =>
        obtain ⟨header, rest⟩ := pair
        cases parsed : parsePrefixHash header.prefixHash with
        | error status => simp [read, parsed, Except.mapError, bind, Except.bind] at admitted
        | ok prefixHash =>
            cases reserved : withCapacity platform header.totalSize.toNat with
            | error failure =>
                simp [read, parsed, reserved, Except.mapError, bind, Except.bind] at admitted
            | ok capacity =>
                obtain ⟨rfl, granted⟩ := withCapacity_eq_ok reserved
                cases collected : collectData platform header.totalSize.toNat [] rest with
                | error failure =>
                    simp [read, parsed, reserved, collected, Except.mapError, bind, Except.bind]
                      at admitted
                | ok bytes =>
                    simp only [read, parsed, reserved, collected, Except.mapError, bind,
                      Except.bind, pure, Except.pure, Except.ok.injEq, Prod.mk.injEq] at admitted
                    obtain ⟨rfl, rfl⟩ := admitted
                    exact ⟨header, rest, prefixHash, rfl, parsed, granted, collected, rfl⟩

/-- What follows a header with a well-formed hash: the buffer is reserved, then the
data is collected. -/
theorem storeAdmit_headed (platform : Platform) {service : CacheService}
    {header : StoreHeader} {prefixHash : PrefixHash}
    (calm : service.pressureLevel < pressureReject)
    (parsed : parsePrefixHash header.prefixHash = .ok prefixHash) (rest : StoreStream) :
    service.storeAdmit platform (.ok ⟨some (.header header)⟩ :: rest) =
      (withCapacity platform header.totalSize.toNat).bind fun capacity =>
        (collectData platform capacity [] rest).map fun data =>
          (compositeKey platform header.modelId prefixHash, data) := by
  have notRejected : ¬ service.pressureLevel ≥ pressureReject := UInt8.not_le.mpr calm
  unfold storeAdmit
  rw [if_neg notRejected]
  simp only [readHeader, Except.mapError, bind, Except.bind, parsed]
  cases withCapacity platform header.totalSize.toNat with
  | error failure => rfl
  | ok capacity => cases collectData platform capacity [] rest <;> rfl

section Protocol

variable {platform : Platform} {service : CacheService} {header : StoreHeader}
  {prefixHash : PrefixHash} {chunks : List (List UInt8)}

/-- A Store that keeps to the protocol is admitted when its buffer can be allocated,
as declared and as it grows with the data. -/
theorem storeAdmit_storeMessages (calm : service.pressureLevel < pressureReject)
    (parsed : parsePrefixHash header.prefixHash = .ok prefixHash)
    (granted : bufferCapacity header.totalSize.toNat 0 chunks ≤ platform.reservable) :
    service.storeAdmit platform (storeMessages header chunks) =
      .ok (compositeKey platform header.modelId prefixHash, chunks.flatten) := by
  have declared := (le_bufferCapacity _ _ _).trans granted
  rw [storeMessages, storeAdmit_headed platform calm parsed, withCapacity_of_le declared]
  simp only [Except.bind]
  rw [collectData_map_data declared, if_pos (by exact granted)]
  rfl

theorem granted_of_storeAdmit {admitted : PrefixHash × List UInt8}
    (admits : service.storeAdmit platform (storeMessages header chunks) = .ok admitted) :
    bufferCapacity header.totalSize.toNat 0 chunks ≤ platform.reservable := by
  obtain ⟨declaring, rest, prefixHash, read, -, declared, collected, -⟩ := storeAdmit_eq_ok admits
  cases read
  by_contra refused
  rw [collectData_map_data declared, if_neg (by exact refused)] at collected
  cases collected

end Protocol

section StoreCases

variable {platform : Platform} {service : CacheService} {stream : StoreStream}
  {key : PrefixHash} {data : List UInt8} {allocator : BlockAllocator}

theorem store_of_not_admitted {failure : Failure}
    (admitted : service.storeAdmit platform stream = .error failure) (now : UInt64) :
    service.store platform now stream = (service, .error failure) := by
  simp only [store, admitted]

theorem store_of_panic {panic : Panic}
    (admitted : service.storeAdmit platform stream = .ok (key, data))
    (outcome : service.allocator.allocateAndWrite platform data = (allocator, .error panic))
    (now : UInt64) :
    service.store platform now stream =
      ({ service with allocator := allocator }, .error (.panic panic)) := by
  simp only [store, admitted, outcome]

theorem store_of_refused (admitted : service.storeAdmit platform stream = .ok (key, data))
    (outcome : service.allocator.allocateAndWrite platform data = (allocator, .ok none))
    (now : UInt64) :
    service.store platform now stream =
      (service, .error (.status (resourceExhausted "memory pool exhausted"))) := by
  obtain ⟨rfl, -⟩ := BlockAllocator.allocateAndWrite_eq_none outcome
  simp only [store, admitted, outcome]

theorem store_of_written {location : BlockStore.BlockLocation} {handle : BlockHandle}
    (admitted : service.storeAdmit platform stream = .ok (key, data))
    (outcome : service.allocator.allocateAndWrite platform data =
      (allocator, .ok (some (location, handle)))) (now : UInt64) :
    service.store platform now stream =
      (({ service with allocator := allocator }.storeCommit key location now).1,
        .ok ({ service with allocator := allocator }.storeCommit key location now).2) := by
  simp only [store, admitted, outcome]

/-- A Store that succeeds has written its bytes and put the entry for them. -/
theorem store_eq_of_isOk (admitted : service.storeAdmit platform stream = .ok (key, data))
    {now : UInt64} (succeeds : (service.store platform now stream).2.isOk) :
    ∃ allocator location handle, service.allocator.allocateAndWrite platform data =
        (allocator, .ok (some (location, handle))) ∧
      (service.store platform now stream).1 =
        ({ service with allocator := allocator }.storeCommit key location now).1 := by
  rcases outcome : service.allocator.allocateAndWrite platform data with ⟨allocator, result⟩
  rcases result with panic | refused | ⟨location, handle⟩
  · rw [store_of_panic admitted outcome] at succeeds
    cases succeeds
  · rw [store_of_refused admitted outcome] at succeeds
    cases succeeds
  · exact ⟨allocator, location, handle, rfl,
      congrArg Prod.fst (store_of_written admitted outcome _)⟩

end StoreCases

/-! ## Get -/

/-- The handle Get and Delete rebuild from a location, with pool id 0. -/
def localHandle (location : BlockStore.BlockLocation) : BlockHandle where
  poolId := 0
  blockIndex := location.blockIndex
  offset := location.offset.toNat
  size := location.blockSize.toNat

/-- The data messages of a Get. A panic in `read_verified` ends the task and
with it the stream; a checksum failure is reported as data loss. -/
def streamBlocks (platform : Platform) (allocator : BlockAllocator) :
    List BlockStore.BlockLocation → GetStream
  | [] => []
  | location :: rest =>
      match allocator.readVerified platform (localHandle location) with
      | .error _ => []
      | .ok none => [.error ⟨.dataLoss, "block CRC32C verification failed"⟩]
      | .ok (some data) => .ok ⟨some (.data data)⟩ :: streamBlocks platform allocator rest

def getHeader (entry : IndexEntry) : GetHeader where
  totalSize := (entry.blocks.map BlockStore.BlockLocation.blockSize).sum
  numBlocks := UInt32.ofNat entry.blocks.length
  generationId := (entry.blocks.head?.map BlockStore.BlockLocation.generation).getD 0

/-- The spawned task of a Get: header first, then the blocks. -/
def getTask (platform : Platform) (allocator : BlockAllocator) (entry : IndexEntry) :
    GetStream :=
  .ok ⟨some (.header (getHeader entry))⟩ :: streamBlocks platform allocator entry.blocks

def get (platform : Platform) (service : CacheService) (request : GetRequest) :
    CacheService × Except Status GetStream :=
  match parsePrefixHash request.prefixHash with
  | .error status => (service, .error status)
  | .ok prefixHash =>
      match service.index.lookup (compositeKey platform request.modelId prefixHash) with
      | (index, none) =>
          ({ service with index := index }.countMiss,
            .error ⟨.notFound, "prefix hash not found in cache"⟩)
      | (index, some entry) =>
          ({ service with index := index }.countHit,
            .ok (getTask platform service.allocator entry))

/-! ## Delete and Stats -/

/-- The loop of Delete over the removed blocks. -/
def deallocateBlocks : BlockAllocator → List BlockStore.BlockLocation →
    BlockAllocator × Except Panic Unit
  | allocator, [] => (allocator, .ok ())
  | allocator, location :: rest =>
      match allocator.deallocate (localHandle location) with
      | .error panic => (allocator, .error panic)
      | .ok freed => deallocateBlocks freed rest

/-- `delete`: the index is keyed by the raw prefix hash. -/
def delete (service : CacheService) (request : DeleteRequest) :
    CacheService × Except Failure DeleteResponse :=
  match parsePrefixHash request.prefixHash with
  | .error status => (service, .error (.status status))
  | .ok prefixHash =>
      match service.index.remove prefixHash with
      | (index, none) => ({ service with index := index }, .ok ⟨false, 0⟩)
      | (index, some entry) =>
          match deallocateBlocks service.allocator entry.blocks with
          | (allocator, .error panic) =>
              ({ service with index := index, allocator := allocator }, .error (.panic panic))
          | (allocator, .ok ()) =>
              ({ service with index := index, allocator := allocator },
                .ok ⟨true, UInt64.ofNat entry.blocks.length⟩)

section DeleteCases

variable {service : CacheService} {request : DeleteRequest} {prefixHash : PrefixHash}
  {index : BlockIndex} {location : BlockStore.BlockLocation} {entry : IndexEntry}

theorem delete_of_rejected {status : Status}
    (parsed : parsePrefixHash request.prefixHash = .error status) :
    service.delete request = (service, .error (.status status)) := by
  simp only [delete, parsed]

theorem delete_of_absent (parsed : parsePrefixHash request.prefixHash = .ok prefixHash)
    (removed : service.index.remove prefixHash = (index, none)) :
    service.delete request = ({ service with index := index }, .ok ⟨false, 0⟩) := by
  simp only [delete, parsed, removed]

/-- A Delete of an entry with one block, when the block can be freed. -/
theorem delete_of_freed {allocator : BlockAllocator}
    (parsed : parsePrefixHash request.prefixHash = .ok prefixHash)
    (removed : service.index.remove prefixHash = (index, some entry))
    (single : entry.blocks = [location])
    (freed : service.allocator.deallocate (localHandle location) = .ok allocator) :
    service.delete request =
      ({ service with index := index, allocator := allocator }, .ok ⟨true, 1⟩) := by
  simp only [delete, parsed, removed, single, deallocateBlocks, freed]
  rfl

/-- A Delete of an entry with one block, when freeing it panics. -/
theorem delete_of_panic {panic : Panic}
    (parsed : parsePrefixHash request.prefixHash = .ok prefixHash)
    (removed : service.index.remove prefixHash = (index, some entry))
    (single : entry.blocks = [location])
    (freed : service.allocator.deallocate (localHandle location) = .error panic) :
    service.delete request = ({ service with index := index }, .error (.panic panic)) := by
  simp only [delete, parsed, removed, single, deallocateBlocks, freed]

end DeleteCases

def stats (service : CacheService) : StatsResponse :=
  let poolStats := service.allocator.stats
  { totalBlocks := UInt64.ofNat poolStats.totalBlocks
    usedBlocks := UInt64.ofNat poolStats.usedBlocks
    cacheHits := service.cacheHits
    cacheMisses := service.cacheMisses
    evictions := service.evictions
    memoryUsedBytes := UInt64.ofNat poolStats.usedBytes
    memoryTotalBytes := UInt64.ofNat poolStats.totalBytes }

/-! ## One request at a time -/

end CacheService

inductive Request where
  | lookup (request : LookupRequest)
  | batchLookup (request : BatchLookupRequest)
  | store (now : UInt64) (stream : StoreStream)
  | get (request : GetRequest)
  | delete (request : DeleteRequest)

inductive Response where
  | lookup (answer : Except Status LookupResponse)
  | batchLookup (answer : Except Status BatchLookupResponse)
  | store (answer : Except Failure StoreResponse)
  | get (answer : Except Status GetStream)
  | delete (answer : Except Failure DeleteResponse)
deriving DecidableEq

/-- One request, from arrival to answer. -/
def CacheService.handle (platform : Platform) (service : CacheService) :
    Request → CacheService × Response
  | .lookup request => (service.lookup platform request).map id .lookup
  | .batchLookup request => (service.batchLookup platform request).map id .batchLookup
  | .store now stream => (service.store platform now stream).map id .store
  | .get request => (service.get platform request).map id .get
  | .delete request => (service.delete request).map id .delete

/-- What can happen to an agent between two answers: a request is handled, the
pressure monitor stores a level, or the etcd watch updates the remote index. -/
inductive Event where
  | request (request : Request)
  | pressure (level : UInt8)
  | remote (contents : RemoteIndex)

def CacheService.react (platform : Platform) (service : CacheService) :
    Event → CacheService × Option Response
  | .request request => (service.handle platform request).map id some
  | .pressure level => ({ service with pressureLevel := level }, none)
  | .remote contents =>
      ({ service with remoteIndex := service.remoteIndex.map fun _ => contents }, none)

end CmxRdma.Agent
