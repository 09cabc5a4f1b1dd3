import Mathlib.Data.List.Basic
import Mathlib.Data.List.OfFn

/-!
Contract: a byte-addressed memory region as a total function from addresses.

Owns: reading and writing runs of bytes, reading back a write, splitting a
read, the frame rule for disjoint reads, and reads of regions that differ within a
window.

Does not own: bounds of a mapped region, blocks, or headers.
-/

namespace CmxRdma.Lib.ByteRegion

/-- The bytes at every address. -/
abbrev Region := Nat → UInt8

/-- The `count` bytes from `start` on. -/
def readBytes (region : Region) (start count : Nat) : List UInt8 :=
  (List.range count).map fun index => region (start + index)

/-- The region after `bytes` were copied to `start`. -/
def writeBytes (region : Region) (start : Nat) (bytes : List UInt8) : Region :=
  fun address =>
    if start ≤ address then (bytes[address - start]?).getD (region address)
    else region address

@[simp] theorem readBytes_length (region : Region) (start count : Nat) :
    (readBytes region start count).length = count := by
  simp [readBytes]

theorem readBytes_add (region : Region) (start first second : Nat) :
    readBytes region start (first + second) =
      readBytes region start first ++ readBytes region (start + first) second := by
  simp [readBytes, List.range_add, Nat.add_assoc]

theorem take_readBytes (region : Region) {start count front : Nat} (shorter : front ≤ count) :
    (readBytes region start count).take front = readBytes region start front := by
  obtain ⟨rest, rfl⟩ := Nat.exists_eq_add_of_le shorter
  rw [readBytes_add, List.take_left' (readBytes_length region start front)]

/-- A read sees only the addresses it covers. -/
theorem readBytes_congr {left right : Region} {start count : Nat}
    (agree : ∀ address, start ≤ address → address < start + count →
      left address = right address) :
    readBytes left start count = readBytes right start count := by
  apply List.map_congr_left
  intro index member
  have below := List.mem_range.mp member
  exact agree (start + index) (by omega) (by omega)

theorem getElem_readBytes (region : Region) {start count index : Nat}
    (inside : index < (readBytes region start count).length) :
    (readBytes region start count)[index] = region (start + index) := by
  simp [readBytes]

/-- Regions that agree outside a window are read alike before it and behind it. -/
theorem readBytes_window {left right : Region} {window width : Nat} (start count : Nat)
    (within : ∀ address, left address ≠ right address →
      window ≤ address ∧ address < window + width) :
    (readBytes left start count).take (window - start) =
        (readBytes right start count).take (window - start) ∧
      (readBytes left start count).drop (window - start + width) =
        (readBytes right start count).drop (window - start + width) := by
  have agree : ∀ address, ¬ (window ≤ address ∧ address < window + width) →
      left address = right address := fun address outside =>
    not_not.mp fun different => outside (within address different)
  constructor
  · apply List.ext_getElem (by simp)
    intro index inside _
    rw [List.length_take] at inside
    rw [List.getElem_take, List.getElem_take, getElem_readBytes, getElem_readBytes]
    exact agree _ (by omega)
  · apply List.ext_getElem (by simp)
    intro index inside _
    rw [List.getElem_drop, List.getElem_drop, getElem_readBytes, getElem_readBytes]
    exact agree _ (by omega)

/-- Outside the written run a write changes nothing. -/
theorem writeBytes_outside (region : Region) (start : Nat) (bytes : List UInt8)
    {address : Nat} (outside : address < start ∨ start + bytes.length ≤ address) :
    writeBytes region start bytes address = region address := by
  unfold writeBytes
  split
  · rw [List.getElem?_eq_none (by omega)]
    rfl
  · rfl

/-- Frame rule: a read that misses the written run is unchanged. -/
theorem readBytes_writeBytes_disjoint (region : Region) {start count target : Nat}
    {bytes : List UInt8}
    (disjoint : start + count ≤ target ∨ target + bytes.length ≤ start) :
    readBytes (writeBytes region target bytes) start count = readBytes region start count := by
  apply readBytes_congr
  intro address low high
  apply writeBytes_outside
  omega

/-- A write is read back. -/
theorem readBytes_writeBytes_self (region : Region) (start : Nat) (bytes : List UInt8) :
    readBytes (writeBytes region start bytes) start bytes.length = bytes := by
  apply List.ext_getElem (by simp)
  intro index _ below
  simp [readBytes, writeBytes, below]

end CmxRdma.Lib.ByteRegion
