import CmxRdma.BlockStore.LiveBlocks

/-!
Contract: `cmx-agent/src/config.rs`, and which admitted configurations are safe.

Owns: the configuration fields that `validate` reads, with their defaults, the
checks with their error texts, that a valid configuration makes a pool, and the
exact sizes with which `allocate_and_write` neither wraps nor truncates.

Does not own: parsing of the configuration file, the fields nothing checks, and
`mmap`.
-/

namespace CmxRdma.Agent

open CmxRdma.BlockStore
open CmxRdma.Lib.ByteRegion
open CmxRdma.Lib.Transition
open CmxRdma.Memory

/-! ## Numbers -/

/-- An `f64`, as its bits. -/
structure F64 where
  bits : UInt64
deriving DecidableEq, Repr

namespace F64

def zero : F64 := ⟨0⟩

def one : F64 := ⟨0x3FF0000000000000⟩

/-- The bits without the sign: exponent above fraction, so that magnitudes compare as
these numbers do. -/
def magnitude (number : F64) : Nat := number.bits.toNat % 2 ^ 63

def isNaN (number : F64) : Bool := 0x7FF0000000000000 < number.magnitude

/-- The place of a number that is not NaN in the order, both zeros at `0`. -/
def rank (number : F64) : Int :=
  if number.bits.toNat < 2 ^ 63 then number.magnitude else -number.magnitude

/-- `<=` of the source: false when either side is NaN. -/
def le (left right : F64) : Bool := !left.isNaN && !right.isNaN && left.rank ≤ right.rank

end F64

/-! ## The configuration -/

structure AgentSection where
  nodeId : String
  listenAddr : String

structure MemorySection where
  totalSize : UInt64
  blockSize : UInt64
  pressureWarn : F64
  pressureCritical : F64
  pressureReject : F64

structure AgentConfig where
  agent : AgentSection
  memory : MemorySection

/-- What `validate` takes from the standard library: the text of an `f64`, and whether a
text parses as a `SocketAddr`. -/
structure StdText where
  displayF64 : F64 → String
  isSocketAddr : String → Bool

namespace AgentConfig

/-- `default_config`; the thresholds are 0.75, 0.90 and 0.95. -/
def defaultConfig : AgentConfig where
  agent := ⟨"", "0.0.0.0:50051"⟩
  memory := {
    totalSize := 1024 * 1024 * 1024
    blockSize := 256 * 1024
    pressureWarn := ⟨0x3FE8000000000000⟩
    pressureCritical := ⟨0x3FECCCCCCCCCCCCD⟩
    pressureReject := ⟨0x3FEE666666666666⟩ }

/-- One check of `validate`. -/
def check (failed : Bool) (message : String) : List String := if failed then [message] else []

/-- The check of one threshold. -/
def checkThreshold (std : StdText) (name : String) (value : F64) : List String :=
  check (!(F64.zero.le value && value.le F64.one))
    ("memory." ++ name ++ " (" ++ std.displayF64 value ++ ") must be between 0.0 and 1.0")

/-- The check that one threshold lies below another. -/
def checkOrder (std : StdText) (lowName highName : String) (low high : F64) : List String :=
  check (high.le low)
    ("memory." ++ lowName ++ " (" ++ std.displayF64 low ++ ") must be < memory." ++ highName ++
      " (" ++ std.displayF64 high ++ ")")

/-- The errors `validate` collects, in order. -/
def errors (std : StdText) (config : AgentConfig) : List String :=
  let memory := config.memory
  check (memory.blockSize == 0) "memory.block_size must be > 0" ++
    check (memory.totalSize == 0) "memory.total_size must be > 0" ++
    check (0 < memory.blockSize && memory.totalSize % memory.blockSize != 0)
      ("memory.total_size (" ++ toString memory.totalSize.toNat ++
        ") must be divisible by memory.block_size (" ++ toString memory.blockSize.toNat ++ ")") ++
    checkThreshold std "pressure_warn" memory.pressureWarn ++
    checkThreshold std "pressure_critical" memory.pressureCritical ++
    checkThreshold std "pressure_reject" memory.pressureReject ++
    checkOrder std "pressure_warn" "pressure_critical" memory.pressureWarn
      memory.pressureCritical ++
    checkOrder std "pressure_critical" "pressure_reject" memory.pressureCritical
      memory.pressureReject ++
    check (!std.isSocketAddr config.agent.listenAddr)
      ("agent.listen_addr ('" ++ config.agent.listenAddr ++ "') is not a valid socket address")

def validate (std : StdText) (config : AgentConfig) : Except (List String) Unit :=
  if (config.errors std).isEmpty then .ok () else .error (config.errors std)

/-- `resolve_node_id`: an empty id is replaced by `CMX_NODE_ID`, or by the host name. -/
def resolveNodeId (environment : Option String) (hostname : String) (config : AgentConfig) :
    AgentConfig :=
  if config.agent.nodeId.isEmpty then
    { config with agent := { config.agent with nodeId := environment.getD hostname } }
  else config

@[simp] theorem check_eq_nil {failed : Bool} {message : String} :
    check failed message = [] ↔ failed = false := by
  cases failed <;> simp [check]

theorem validate_eq_ok {std : StdText} {config : AgentConfig} :
    config.validate std = .ok () ↔ config.errors std = [] := by
  unfold validate
  split_ifs with valid
  · simpa using valid
  · simpa using valid

/-- A size of zero, or one that the other does not divide, is an error. -/
theorem sizes_checked {total block : UInt64} :
    ((block == 0) = false ∧ (total == 0) = false ∧
        (decide (0 < block) && total % block != 0) = false) ↔
      0 < block.toNat ∧ 0 < total.toNat ∧ block.toNat ∣ total.toNat := by
  have positive : ∀ size : UInt64, (size == 0) = false ↔ 0 < size.toNat := by
    intro size
    rw [beq_eq_false_iff_ne, ne_eq, ← UInt64.toNat_inj, Nat.pos_iff_ne_zero]
    rfl
  have divides : total % block = 0 ↔ block.toNat ∣ total.toNat := by
    rw [← UInt64.toNat_inj, UInt64.toNat_mod]
    exact (Nat.dvd_iff_mod_eq_zero ..).symm
  rw [positive, positive]
  refine and_congr_right fun blockPos => and_congr_right fun _ => ?_
  have blockPos' : 0 < block := UInt64.lt_iff_toNat_lt.mpr blockPos
  simp [blockPos', divides]

/-- What a valid configuration has. -/
theorem validate_eq_ok_iff {std : StdText} {config : AgentConfig} :
    config.validate std = .ok () ↔
      (0 < config.memory.blockSize.toNat ∧ 0 < config.memory.totalSize.toNat ∧
        config.memory.blockSize.toNat ∣ config.memory.totalSize.toNat) ∧
      (∀ threshold ∈ [config.memory.pressureWarn, config.memory.pressureCritical,
        config.memory.pressureReject], F64.zero.le threshold ∧ threshold.le F64.one) ∧
      config.memory.pressureCritical.le config.memory.pressureWarn = false ∧
      config.memory.pressureReject.le config.memory.pressureCritical = false ∧
      std.isSocketAddr config.agent.listenAddr := by
  rw [validate_eq_ok, ← sizes_checked]
  simp only [errors, checkThreshold, checkOrder, List.append_eq_nil_iff, check_eq_nil,
    List.forall_mem_cons, List.not_mem_nil, false_imp_iff, implies_true, and_true, and_assoc,
    Bool.not_eq_false', Bool.and_eq_true]

/-- The defaults pass, as long as the default address parses. -/
theorem validate_defaultConfig {std : StdText} (parses : std.isSocketAddr "0.0.0.0:50051") :
    defaultConfig.validate std = .ok () := by
  rw [validate_eq_ok_iff]
  exact ⟨by decide, by decide, by decide, by decide, parses⟩

/-- A valid configuration makes a pool. -/
theorem exists_pool {std : StdText} {config : AgentConfig} (valid : config.validate std = .ok ())
    (poolId : UInt32) :
    ∃ geometry : Geometry,
      MemoryPool.new poolId config.memory.totalSize config.memory.blockSize =
          .ok (MemoryPool.fresh geometry) ∧
        geometry.blockSize = config.memory.blockSize.toNat ∧
        geometry.totalBlocks =
          config.memory.totalSize.toNat / config.memory.blockSize.toNat := by
  obtain ⟨⟨blockPos, totalPos, divides⟩, -⟩ := validate_eq_ok_iff.mp valid
  have acceptable : ¬ (config.memory.totalSize.toNat = 0 ∨
      ¬ config.memory.blockSize.toNat ∣ config.memory.totalSize.toNat) := by
    rintro (zero | indivisible)
    · omega
    · exact indivisible divides
  unfold MemoryPool.new
  rw [dif_neg blockPos.ne', dif_neg acceptable]
  exact ⟨_, rfl, rfl, rfl⟩

end AgentConfig

/-! ## Arithmetic of a write -/

/-- A write of the data is exact: the subtraction does not wrap, nothing panics, and a
block that is returned has room for header and data, a header with the data's length
and a handle with the block's index. -/
structure WritesExactly (platform : Platform) (allocator : BlockAllocator) (data : List UInt8) :
    Prop where
  subtracts : ∃ maxData,
    usizeSub true allocator.pool.geometry.blockSize BlockHeader.size = .ok maxData
  returns : ∃ outcome, (allocator.allocateAndWrite platform data).2 = .ok outcome
  exact : ∀ written location handle,
    allocator.allocateAndWrite platform data = (written, .ok (some (location, handle))) →
      data.length + BlockHeader.size ≤ allocator.pool.geometry.blockSize ∧
      (∃ header, BlockHeader.readFrom
          (readBytes written.pool.region handle.offset BlockHeader.size) = some header ∧
        header.dataSize.toNat = data.length) ∧
      handle.blockIndex.toNat = handle.offset / allocator.pool.geometry.blockSize

section Exact

variable {platform : Platform} {allocator written : BlockAllocator} {data : List UInt8}
  {location : BlockLocation} {handle : BlockHandle}

theorem exists_usizeSub_iff {left right : Nat} :
    (∃ difference, usizeSub true left right = .ok difference) ↔ right ≤ left := by
  unfold usizeSub
  by_cases fits : right ≤ left
  · rw [if_pos fits]
    exact iff_of_true ⟨_, rfl⟩ fits
  · rw [if_neg fits, if_pos rfl]
    exact iff_of_false (by simp) fits

/-- What stands in the written block, and what the handle says: both are narrowed to
32 bits. -/
theorem narrowed_of_written
    (returned : allocator.allocateAndWrite platform data =
      (written, .ok (some (location, handle)))) :
    ∃ block, allocator.pool.freeList = written.pool.freeList ++ [block] ∧
      BlockHeader.readFrom (readBytes written.pool.region handle.offset BlockHeader.size) =
        some (BlockHeader.new platform data allocator.generation) ∧
      handle.blockIndex.toNat = block % 2 ^ 32 ∧
      handle.offset / allocator.pool.geometry.blockSize = block := by
  obtain ⟨block, top, fits, -, -, -, -, regionEq⟩ :=
    BlockAllocator.allocateAndWrite_eq_some returned
  obtain rfl := BlockAllocator.allocateAndWrite_handle returned top
  refine ⟨block, top, ?_, UInt32.toNat_ofNat', ?_⟩
  · have holds := BlockAllocator.holds_written platform allocator.pool.geometry
      allocator.pool.region block data allocator.generation
    rw [← regionEq] at holds
    have headerBytes := congrArg BlockHeader.readFrom holds.header_eq
    have readBack := BlockHeader.readFrom_writeTo platform
      (BlockHeader.new platform data allocator.generation) []
    rw [List.append_nil] at readBack
    exact headerBytes.trans readBack
  · exact Nat.mul_div_cancel block allocator.pool.geometry.blockSizePos

/-- The sizes with which every write is exact: a block holds a header, the data that
fits behind it has a 32-bit length, and every block has a 32-bit index. -/
def SafeSizes (blockSize totalBlocks : Nat) : Prop :=
  BlockHeader.size ≤ blockSize ∧ blockSize < 2 ^ 32 + BlockHeader.size ∧ totalBlocks ≤ 2 ^ 32

theorem writesExactly_of_safeSizes (platform : Platform) {allocator : BlockAllocator}
    (safe : SafeSizes allocator.pool.geometry.blockSize allocator.pool.geometry.totalBlocks)
    (data : List UInt8) : WritesExactly platform allocator data := by
  obtain ⟨headerFits, lengthFits, indexFits⟩ := safe
  refine ⟨exists_usizeSub_iff.mpr headerFits, ?_, ?_⟩
  · rcases outcome : allocator.allocateAndWrite platform data with ⟨written, panic | result⟩
    · have cramped := (BlockAllocator.allocateAndWrite_eq_error outcome).1
      omega
    · exact ⟨result, rfl⟩
  · intro written location handle returned
    obtain ⟨-, -, fits, -⟩ := BlockAllocator.allocateAndWrite_eq_some returned
    obtain ⟨block, top, header, blockIndex, quotient⟩ := narrowed_of_written returned
    have inside : block < allocator.pool.geometry.totalBlocks :=
      allocator.pool.freeBelow block (by simp [top])
    refine ⟨by omega, ⟨_, header, UInt32.toNat_ofNat_of_lt' ?_⟩, ?_⟩
    · rw [UInt32.size]
      omega
    · rw [blockIndex, quotient, Nat.mod_eq_of_lt (by omega)]

section Fresh

variable {geometry : Geometry} {nodeId : UInt32}
  (exact : ∀ data,
    WritesExactly platform (BlockAllocator.new (MemoryPool.fresh geometry) nodeId) data)

include exact

theorem headerFits_of_writesExactly : BlockHeader.size ≤ geometry.blockSize :=
  exists_usizeSub_iff.mp (exact []).subtracts

/-- Data of `2 ^ 32` bytes would get a header that says none. -/
theorem blockSize_lt_of_writesExactly : geometry.blockSize < 2 ^ 32 + BlockHeader.size := by
  by_contra long
  generalize lengthEq : 2 ^ 32 = length at long
  have fits : BlockHeader.size + (List.replicate length (0 : UInt8)).length ≤
      geometry.blockSize := by
    rw [List.length_replicate]
    omega
  obtain ⟨written, location, handle, returned⟩ :=
    @BlockAllocator.exists_allocateAndWrite_of_fits platform
      (BlockAllocator.new (MemoryPool.fresh geometry) nodeId) _ fits
      (MemoryPool.freeList_fresh_ne_nil geometry)
  obtain ⟨-, ⟨header, read, lengthKept⟩, -⟩ := (exact _).exact _ _ _ returned
  obtain ⟨-, -, stands, -⟩ := narrowed_of_written returned
  rw [read] at stands
  obtain rfl := Option.some.inj stands
  rw [List.length_replicate, BlockHeader.new, List.length_replicate, ← lengthEq] at lengthKept
  exact absurd lengthKept (show (UInt32.ofNat (2 ^ 32)).toNat ≠ 2 ^ 32 by decide)

/-- The index of the top block would lose its upper bits. -/
theorem totalBlocks_le_of_writesExactly : geometry.totalBlocks ≤ 2 ^ 32 := by
  have fits : BlockHeader.size + ([] : List UInt8).length ≤ geometry.blockSize :=
    headerFits_of_writesExactly exact
  obtain ⟨written, location, handle, returned⟩ :=
    @BlockAllocator.exists_allocateAndWrite_of_fits platform
      (BlockAllocator.new (MemoryPool.fresh geometry) nodeId) _ fits
      (MemoryPool.freeList_fresh_ne_nil geometry)
  obtain ⟨-, -, indexKept⟩ := (exact _).exact _ _ _ returned
  obtain ⟨block, top, -, blockIndex, quotient⟩ := narrowed_of_written returned
  have lastBlock : block = geometry.totalBlocks - 1 := MemoryPool.top_of_freeList_fresh top
  rw [blockIndex, quotient] at indexKept
  have narrowed := Nat.mod_lt block (show 0 < 2 ^ 32 by decide)
  omega

/-- On a fresh pool a first write goes wrong unless the sizes are safe. -/
theorem safeSizes_of_writesExactly : SafeSizes geometry.blockSize geometry.totalBlocks :=
  ⟨headerFits_of_writesExactly exact, blockSize_lt_of_writesExactly exact,
    totalBlocks_le_of_writesExactly exact⟩

end Fresh

end Exact

/-- The writes to every pool made for a configuration that `validate` admits are exact, in
every state its allocator can reach and for all data, exactly when a block holds a header,
what fits behind the header has a 32-bit length, and there are at most `2 ^ 32` blocks. -/
theorem admitted_config_exact_iff (platform : Platform) {std : StdText} {config : AgentConfig}
    (valid : config.validate std = .ok ()) (poolId nodeId : UInt32) (pool : MemoryPool)
    (created : MemoryPool.new poolId config.memory.totalSize config.memory.blockSize = .ok pool) :
    (∀ calls data, WritesExactly platform
        (run (next (AllocatorUse.step platform)) ⟨BlockAllocator.new pool nodeId, []⟩
          calls).allocator data) ↔
      SafeSizes config.memory.blockSize.toNat
        (config.memory.totalSize.toNat / config.memory.blockSize.toNat) := by
  obtain ⟨geometry, fresh, blockSizeEq, totalBlocksEq⟩ := config.exists_pool valid poolId
  obtain rfl := Except.ok.inj (fresh.symm.trans created)
  rw [← totalBlocksEq, ← blockSizeEq]
  constructor
  · intro exact
    exact safeSizes_of_writesExactly fun data => exact [] data
  · intro safe calls data
    apply writesExactly_of_safeSizes
    rw [AllocatorUse.geometry_run]
    exact safe

/-- The defaults with a pool of the given sizes. -/
def AgentConfig.sized (totalSize blockSize : UInt64) : AgentConfig :=
  { AgentConfig.defaultConfig with
    memory := { AgentConfig.defaultConfig.memory with
      totalSize := totalSize, blockSize := blockSize } }

/-- Every write to a pool of two blocks of 32 bytes is exact. -/
theorem admitted_config_exact_small :
    let std : StdText := ⟨fun _ => "", fun address => address = "0.0.0.0:50051"⟩
    (AgentConfig.sized 64 32).validate std = .ok () ∧
      ∃ pool, MemoryPool.new 0 64 32 = .ok pool ∧
        ∀ calls data, WritesExactly .release (run (next (AllocatorUse.step .release))
          ⟨BlockAllocator.new pool 0, []⟩ calls).allocator data := by
  intro std
  have valid : (AgentConfig.sized 64 32).validate std = .ok () := by decide +kernel
  obtain ⟨geometry, created, -⟩ := AgentConfig.exists_pool valid 0
  have exact := admitted_config_exact_iff .release valid 0 0 _ created
  exact ⟨valid, _, created, exact.mpr ⟨by decide, by decide, by decide⟩⟩

/-- Two blocks that cannot hold a header. -/
def crampedGeometry : Geometry where
  poolId := 0
  totalSize := 32
  blockSize := 16
  totalBlocks := 2
  blockSizePos := by decide
  sizeEq := by decide
  blocksPos := Nat.two_pos
  sizeLt := by decide

/-- Blocks of 16 bytes are admitted, and the first write of no data at all panics: the
subtraction wraps around, and the header does not fit the slice. -/
theorem admitted_config_cramped :
    let std : StdText := ⟨fun _ => "", fun address => address = "0.0.0.0:50051"⟩
    let pool := MemoryPool.fresh crampedGeometry
    (AgentConfig.sized 32 16).validate std = .ok () ∧ MemoryPool.new 0 32 16 = .ok pool ∧
      ((BlockAllocator.new pool 0).allocateAndWrite .release []).2 = .error .indexOutOfBounds ∧
      ¬ WritesExactly .release (BlockAllocator.new pool 0) [] := by
  intro std pool
  refine ⟨by decide +kernel, rfl, by decide +kernel, ?_⟩
  intro exact
  have headerFits : BlockHeader.size ≤ crampedGeometry.blockSize :=
    exists_usizeSub_iff.mp exact.subtracts
  exact absurd headerFits (by decide)

end CmxRdma.Agent
