import CmxRdma.Agent.Accounting
import CmxRdma.Agent.Config
import CmxRdma.Lib.Binary64

/-!
Contract: the level `cmx-agent/src/pressure.rs` picks for the statistics of a pool.

Owns: the usage of the pool as the `f64` the monitor computes, the level for it, and the
exact ratio from which each level is reported.

Does not own: when the monitor ticks and what its level does to the agent; see
`Backpressure`. The logged texts and the gauge are left out.
-/

namespace CmxRdma.Agent

open CmxRdma.BlockStore
open CmxRdma.Lib.Balance
open CmxRdma.Lib.Binary64
open CmxRdma.Lib.Transition
open CmxRdma.Memory
open CmxRdma.Proto

/-! ## Arithmetic of the monitor -/

namespace F64

def infinity : Nat := 0x7FF0000000000000

/-- One, in units of the least positive number. -/
def unit : Nat := 2 ^ 1074

/-- The number with the given magnitude; a magnitude out of range is infinite. -/
def ofMagnitude (magnitude : Nat) : F64 := ⟨UInt64.ofNat (min magnitude infinity)⟩

/-- `as f64` of a `usize`. -/
def ofUsize (number : Nat) : F64 := ofMagnitude (encode ((number * unit : Nat) : ℚ))

/-- The quotient of two finite numbers that are not negative, the second not zero. -/
def div (left right : F64) : F64 :=
  ofMagnitude (encode ((units left.magnitude : ℚ) / units right.magnitude * unit))

/-- The value of a finite number that is not negative. -/
def value (number : F64) : ℚ := (units number.magnitude : ℚ) / unit

end F64

/-- `used_blocks as f64 / total_blocks as f64`, or zero for a pool without blocks. -/
def usage (stats : PoolStats) : F64 :=
  if 0 < stats.totalBlocks then (F64.ofUsize stats.usedBlocks).div (F64.ofUsize stats.totalBlocks)
  else F64.zero

def pressureNormal : UInt8 := 0

def pressureWarn : UInt8 := 1

def pressureCritical : UInt8 := 2

structure Thresholds where
  warn : F64
  critical : F64
  reject : F64

/-- The level the monitor stores for the statistics it reads. -/
def Thresholds.level (thresholds : Thresholds) (stats : PoolStats) : UInt8 :=
  if thresholds.reject.le (usage stats) then pressureReject
  else if thresholds.critical.le (usage stats) then pressureCritical
  else if thresholds.warn.le (usage stats) then pressureWarn
  else pressureNormal

/-- The thresholds `main` passes on. -/
def AgentConfig.thresholds (config : AgentConfig) : Thresholds where
  warn := config.memory.pressureWarn
  critical := config.memory.pressureCritical
  reject := config.memory.pressureReject

namespace F64

theorem magnitude_ofMagnitude {magnitude : Nat} (finite : magnitude ≤ infinity) :
    (ofMagnitude magnitude).magnitude = magnitude ∧ (ofMagnitude magnitude).isNaN = false ∧
      (ofMagnitude magnitude).rank = magnitude := by
  have small : magnitude < 2 ^ 63 := lt_of_le_of_lt finite (by decide)
  have bits : (ofMagnitude magnitude).bits.toNat = magnitude := by
    rw [ofMagnitude, Nat.min_eq_left finite]
    exact UInt64.toNat_ofNat_of_lt' (lt_of_lt_of_le small (by decide))
  have sameMagnitude : (ofMagnitude magnitude).magnitude = magnitude := by
    rw [F64.magnitude, bits, Nat.mod_eq_of_lt small]
  refine ⟨sameMagnitude, ?_, ?_⟩
  · rw [isNaN, sameMagnitude]
    exact decide_eq_false (not_lt.mpr finite)
  · rw [rank, bits, if_pos small, sameMagnitude]

/-- A number of the width of `usize` does not overflow. -/
theorem encode_usize_le {number : Nat} (sized : number < usizeBound) :
    encode ((number * unit : Nat) : ℚ) ≤ infinity := by
  have bound : units (1087 * 2 ^ fractionBits) = usizeBound * unit := by decide +kernel
  have below : ((number * unit : Nat) : ℚ) ≤ (units (1087 * 2 ^ fractionBits) : Nat) := by
    rw [bound]
    exact Nat.cast_le.mpr (Nat.mul_le_mul_right _ sized.le)
  have rounded := encode_mono (Nat.cast_nonneg _) below
  rw [encode_units] at rounded
  exact rounded.trans (by decide)

theorem magnitude_ofUsize {number : Nat} (sized : number < usizeBound) :
    (ofUsize number).magnitude = encode ((number * unit : Nat) : ℚ) :=
  (magnitude_ofMagnitude (encode_usize_le sized)).1

end F64

/-! ## The usage of a pool -/

/-- The quotient before it is rounded: both counts are rounded first. -/
def ratio (used total : Nat) : ℚ :=
  (units (encode ((used * F64.unit : Nat) : ℚ)) : ℚ) / units (encode ((total * F64.unit : Nat) : ℚ))

/-- The magnitude of the usage. -/
def usageMagnitude (used total : Nat) : Nat := encode (ratio used total * F64.unit)

theorem ratio_nonneg (used total : Nat) : 0 ≤ ratio used total := by
  unfold ratio
  positivity

theorem ratio_mono {less more : Nat} (le : less ≤ more) (total : Nat) :
    ratio less total ≤ ratio more total := by
  have scaled : ((less * F64.unit : Nat) : ℚ) ≤ ((more * F64.unit : Nat) : ℚ) :=
    Nat.cast_le.mpr (Nat.mul_le_mul_right _ le)
  have rounded := encode_mono (Nat.cast_nonneg _) scaled
  exact div_le_div_of_nonneg_right (Nat.cast_le.mpr (units_strictMono.monotone rounded))
    (Nat.cast_nonneg _)

theorem ratio_self {total : Nat} (someBlock : 0 < total) : ratio total total = 1 := by
  have reached : (units 1 : ℚ) ≤ ((total * F64.unit : Nat) : ℚ) :=
    Nat.cast_le.mpr (Nat.mul_pos someBlock (by decide +kernel))
  have positive := units_strictMono.monotone (le_encode reached)
  exact div_self (Nat.cast_ne_zero.mpr (Nat.pos_iff_ne_zero.mp positive))

/-- Below `2 ^ 53` blocks the counts are exact. -/
theorem ratio_exact {used total : Nat} (within : used ≤ total)
    (exact : total < 2 ^ (fractionBits + 1)) : ratio used total = used / total := by
  rw [ratio, F64.unit, units_encode_whole (within.trans_lt exact) 1074, units_encode_whole exact 1074,
    Nat.cast_mul, Nat.cast_mul, mul_div_mul_right]
  exact Nat.cast_ne_zero.mpr (by positivity)

theorem usageMagnitude_mono {less more : Nat} (le : less ≤ more) (total : Nat) :
    usageMagnitude less total ≤ usageMagnitude more total := by
  have scaled : ratio less total * F64.unit ≤ ratio more total * F64.unit :=
    mul_le_mul_of_nonneg_right (ratio_mono le total) (Nat.cast_nonneg _)
  exact encode_mono (mul_nonneg (ratio_nonneg less total) (Nat.cast_nonneg _)) scaled

theorem usageMagnitude_self {total : Nat} (someBlock : 0 < total) :
    usageMagnitude total total = F64.one.magnitude := by
  have one : units F64.one.magnitude = F64.unit := by decide +kernel
  rw [usageMagnitude, ratio_self someBlock, one_mul, ← one, encode_units]

/-- Statistics of a pool: at most all of its blocks are used, and there is one. -/
structure Proper (stats : PoolStats) : Prop where
  within : stats.usedBlocks ≤ stats.totalBlocks
  someBlock : 0 < stats.totalBlocks
  sized : stats.totalBlocks < usizeBound

theorem Proper.usage_eq {stats : PoolStats} (proper : Proper stats) :
    usage stats = F64.ofMagnitude (usageMagnitude stats.usedBlocks stats.totalBlocks) := by
  rw [usage, if_pos proper.someBlock, F64.div,
    F64.magnitude_ofUsize (proper.within.trans_lt proper.sized),
    F64.magnitude_ofUsize proper.sized]
  rfl

/-- The usage is a number, and its place in the order is its magnitude. -/
theorem Proper.usage_rank {stats : PoolStats} (proper : Proper stats) :
    (usage stats).isNaN = false ∧
      (usage stats).rank = usageMagnitude stats.usedBlocks stats.totalBlocks := by
  have atMostOne := usageMagnitude_mono proper.within stats.totalBlocks
  rw [usageMagnitude_self proper.someBlock] at atMostOne
  rw [proper.usage_eq]
  exact (F64.magnitude_ofMagnitude (atMostOne.trans (by decide))).2

/-! ## Levels -/

/-- The levels above normal, with the thresholds they are reported from. -/
def Thresholds.levels (thresholds : Thresholds) : List (UInt8 × F64) :=
  [(pressureWarn, thresholds.warn), (pressureCritical, thresholds.critical),
    (pressureReject, thresholds.reject)]

/-- Thresholds in the order of the levels, each a number from zero to one. -/
structure Thresholds.Valid (thresholds : Thresholds) : Prop where
  numbers : ∀ pair ∈ thresholds.levels, pair.2.isNaN = false ∧
    pair.2.rank = pair.2.magnitude ∧ pair.2.magnitude ≤ F64.one.magnitude
  warnLt : thresholds.warn.magnitude < thresholds.critical.magnitude
  criticalLt : thresholds.critical.magnitude < thresholds.reject.magnitude

theorem F64.le_eq_true {left right : F64} :
    left.le right = true ↔ left.isNaN = false ∧ right.isNaN = false ∧ left.rank ≤ right.rank := by
  simp [F64.le, and_assoc]

/-- A number between zero and one is its magnitude, also when it is the negative zero. -/
theorem F64.of_between {number : F64} (nonneg : F64.zero.le number) (atMost : number.le F64.one) :
    number.isNaN = false ∧ number.rank = number.magnitude ∧
      number.magnitude ≤ F64.one.magnitude := by
  obtain ⟨-, isNumber, rankNonneg⟩ := F64.le_eq_true.mp nonneg
  obtain ⟨-, -, rankLe⟩ := F64.le_eq_true.mp atMost
  have zeroRank : F64.zero.rank = 0 := by decide
  have oneRank : F64.one.rank = F64.one.magnitude := by decide
  have rankEq : number.rank = number.magnitude := by
    rw [zeroRank] at rankNonneg
    unfold F64.rank at rankNonneg ⊢
    split_ifs at rankNonneg ⊢ <;> omega
  refine ⟨isNumber, rankEq, ?_⟩
  rw [rankEq, oneRank] at rankLe
  exact_mod_cast rankLe

/-- `validate` lets only such thresholds pass. -/
theorem AgentConfig.thresholds_valid {std : StdText} {config : AgentConfig}
    (valid : config.validate std = .ok ()) : config.thresholds.Valid := by
  obtain ⟨-, between, warnBelow, criticalBelow, -⟩ := validate_eq_ok_iff.mp valid
  simp only [List.forall_mem_cons, List.not_mem_nil, false_imp_iff, implies_true,
    and_true] at between
  obtain ⟨⟨warnLow, warnHigh⟩, ⟨criticalLow, criticalHigh⟩, rejectLow, rejectHigh⟩ := between
  have warn := F64.of_between warnLow warnHigh
  have critical := F64.of_between criticalLow criticalHigh
  have reject := F64.of_between rejectLow rejectHigh
  have strict : ∀ {low high : F64}, low.isNaN = false ∧ low.rank = low.magnitude ∧
      low.magnitude ≤ F64.one.magnitude → high.isNaN = false ∧ high.rank = high.magnitude ∧
      high.magnitude ≤ F64.one.magnitude → high.le low = false → low.magnitude < high.magnitude := by
    intro low high lowNumber highNumber above
    by_contra notLess
    rw [← Bool.not_eq_true, F64.le_eq_true] at above
    refine above ⟨highNumber.1, lowNumber.1, ?_⟩
    rw [highNumber.2.1, lowNumber.2.1]
    exact_mod_cast not_lt.mp notLess
  refine ⟨?_, strict warn critical warnBelow, strict critical reject criticalBelow⟩
  simp only [Thresholds.levels, List.forall_mem_cons, List.not_mem_nil, false_imp_iff, implies_true,
    and_true]
  exact ⟨warn, critical, reject⟩

/-- Each level is reported exactly from its threshold on. -/
theorem Thresholds.Valid.le_level_iff {thresholds : Thresholds} (valid : thresholds.Valid)
    {stats : PoolStats} (proper : Proper stats) {pair : UInt8 × F64}
    (member : pair ∈ thresholds.levels) :
    pair.1 ≤ thresholds.level stats ↔
      pair.2.magnitude ≤ usageMagnitude stats.usedBlocks stats.totalBlocks := by
  obtain ⟨isNumber, rank⟩ := proper.usage_rank
  have reaches : ∀ pair ∈ thresholds.levels, pair.2.le (usage stats) = true ↔
      pair.2.magnitude ≤ usageMagnitude stats.usedBlocks stats.totalBlocks := by
    intro pair member
    obtain ⟨notNaN, rankEq, -⟩ := valid.numbers pair member
    rw [F64.le_eq_true, rankEq, rank]
    simp [notNaN, isNumber]
  have warnLt := valid.warnLt
  have criticalLt := valid.criticalLt
  simp only [levels, List.forall_mem_cons, List.not_mem_nil, false_imp_iff, implies_true,
    and_true] at reaches
  obtain ⟨warn, critical, reject⟩ := reaches
  simp only [levels, List.mem_cons, List.not_mem_nil, or_false] at member
  simp only [level, warn, critical, reject]
  -- three levels to compare with, four levels that can be reported
  rcases member with rfl | rfl | rfl <;> dsimp only <;> split_ifs
  all_goals
    first
    | exact iff_of_true (by decide) (by omega)
    | exact iff_of_false (by decide) (by omega)

theorem Thresholds.level_cases (thresholds : Thresholds) (stats : PoolStats) :
    thresholds.level stats = pressureNormal ∨
      ∃ pair ∈ thresholds.levels, thresholds.level stats = pair.1 := by
  unfold level
  split_ifs
  · exact Or.inr ⟨(pressureReject, thresholds.reject), by simp [levels], rfl⟩
  · exact Or.inr ⟨(pressureCritical, thresholds.critical), by simp [levels], rfl⟩
  · exact Or.inr ⟨(pressureWarn, thresholds.warn), by simp [levels], rfl⟩
  · exact Or.inl rfl

/-- More used blocks never give a lower level. -/
theorem Thresholds.Valid.level_mono {thresholds : Thresholds} (valid : thresholds.Valid)
    {fewer stats : PoolStats} (proper : Proper stats)
    (sameTotal : fewer.totalBlocks = stats.totalBlocks)
    (fewerUsed : fewer.usedBlocks ≤ stats.usedBlocks) :
    thresholds.level fewer ≤ thresholds.level stats := by
  have fewerProper : Proper fewer :=
    ⟨sameTotal ▸ fewerUsed.trans proper.within, sameTotal ▸ proper.someBlock,
      sameTotal ▸ proper.sized⟩
  rcases thresholds.level_cases fewer with normal | ⟨pair, member, reported⟩
  · rw [normal]
    exact UInt8.zero_le
  · rw [reported, valid.le_level_iff proper member]
    have reached := (valid.le_level_iff fewerProper member).mp (reported ▸ UInt8.le_refl _)
    rw [sameTotal] at reached
    exact reached.trans (usageMagnitude_mono fewerUsed stats.totalBlocks)

/-- A full pool is rejecting. -/
theorem Thresholds.Valid.level_full {thresholds : Thresholds} (valid : thresholds.Valid)
    {stats : PoolStats} (proper : Proper stats)
    (full : stats.usedBlocks = stats.totalBlocks) : thresholds.level stats = pressureReject := by
  have last : (pressureReject, thresholds.reject) ∈ thresholds.levels := by simp [levels]
  have atMost : pressureReject ≤ thresholds.level stats := by
    rw [valid.le_level_iff proper last, full, usageMagnitude_self proper.someBlock]
    exact (valid.numbers _ last).2.2
  unfold level at atMost ⊢
  split_ifs at atMost ⊢
  · rfl
  all_goals exact absurd atMost (by decide)

/-- The level an admitted configuration reports, for a pool below `2 ^ 53` blocks: at
least the one whose threshold the exact ratio of used blocks reaches, and none whose
threshold lies above a smaller `f64` that the ratio does not exceed. More used blocks
never give a lower level, and a full pool is rejecting. -/
theorem monitor_level_exact {std : StdText} {config : AgentConfig}
    (valid : config.validate std = .ok ()) {stats : PoolStats} (proper : Proper stats)
    (exact : stats.totalBlocks < 2 ^ 53) :
    (∀ pair ∈ config.thresholds.levels,
      (pair.2.value * stats.totalBlocks ≤ stats.usedBlocks →
          pair.1 ≤ config.thresholds.level stats) ∧
        (pair.1 ≤ config.thresholds.level stats →
          ∀ lower : F64, lower.magnitude < pair.2.magnitude →
            lower.value * stats.totalBlocks < stats.usedBlocks)) ∧
      (∀ fewer : PoolStats, fewer.totalBlocks = stats.totalBlocks →
        fewer.usedBlocks ≤ stats.usedBlocks →
          config.thresholds.level fewer ≤ config.thresholds.level stats) ∧
      (stats.usedBlocks = stats.totalBlocks →
        config.thresholds.level stats = pressureReject) := by
  have thresholds := AgentConfig.thresholds_valid valid
  have blocks : (0 : ℚ) < stats.totalBlocks := Nat.cast_pos.mpr proper.someBlock
  have unitPos : (0 : ℚ) < F64.unit := Nat.cast_pos.mpr (by decide +kernel)
  have magnitudeEq : usageMagnitude stats.usedBlocks stats.totalBlocks =
      encode ((stats.usedBlocks : ℚ) / stats.totalBlocks * F64.unit) := by
    rw [usageMagnitude, ratio_exact proper.within exact]
  refine ⟨?_, ?_, ?_⟩
  · intro pair member
    rw [thresholds.le_level_iff proper member, magnitudeEq]
    constructor
    · intro reached
      apply le_encode
      rw [← div_le_iff₀ unitPos, le_div_iff₀ blocks]
      exact reached
    · intro reported lower below
      have above := lt_of_le_encode
        (mul_nonneg (div_nonneg (Nat.cast_nonneg _) blocks.le) unitPos.le)
        (Nat.le_trans below reported)
      rw [← div_lt_iff₀ unitPos, lt_div_iff₀ blocks] at above
      exact above
  · intro fewer sameTotal fewerUsed
    exact thresholds.level_mono proper sameTotal fewerUsed
  · exact thresholds.level_full proper

/-- Nineteen of twenty blocks are rejecting by default: the `f64` written `0.95` lies
below the ratio. -/
theorem monitor_level_default :
    let std : StdText := ⟨fun _ => "", fun address => address = "0.0.0.0:50051"⟩
    let stats : PoolStats := ⟨20, 19, 1, 20, 19⟩
    AgentConfig.defaultConfig.validate std = .ok () ∧
      AgentConfig.defaultConfig.thresholds.level stats = pressureReject ∧
      pressureReject ≤ AgentConfig.defaultConfig.thresholds.level stats := by
  intro std stats
  have valid : AgentConfig.defaultConfig.validate std = .ok () :=
    AgentConfig.validate_defaultConfig (by decide)
  refine ⟨valid, by decide +kernel, ?_⟩
  exact ((monitor_level_exact valid ⟨by decide, by decide, by decide⟩ (by decide)).1
    (pressureReject, AgentConfig.defaultConfig.thresholds.reject) (by simp [Thresholds.levels])).1
    (by decide +kernel)

end CmxRdma.Agent
