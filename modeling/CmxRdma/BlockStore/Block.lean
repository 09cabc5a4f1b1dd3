import CmxRdma.Lib.LittleEndian
import CmxRdma.Platform

/-!
Contract: `cmx-block-store/src/block.rs`, the block header and its location.

Owns: the header fields, its 24-byte `repr(C)` image on a little-endian target
(crc at 0, padding at 4, generation at 8, data size at 16, reserved at 20), the
round trip through that image, and the location record of the index.

Does not own: where a header is written, or what the CRC guarantees.
-/

namespace CmxRdma.BlockStore

open CmxRdma.Lib.LittleEndian

structure BlockHeader where
  crc32 : UInt32
  generation : UInt64
  dataSize : UInt32
  reserved : UInt32
deriving DecidableEq, Repr

structure BlockLocation where
  nodeId : UInt32
  blockIndex : UInt32
  offset : UInt64
  blockSize : UInt64
  generation : UInt64
deriving DecidableEq, Repr

namespace BlockHeader

/-- `BlockHeader::SIZE`. -/
def size : Nat := 24

/-- `BlockHeader::new`: the length is narrowed to `u32`. -/
def new (platform : Platform) (data : List UInt8) (generation : UInt64) : BlockHeader where
  crc32 := platform.crc32 data
  generation := generation
  dataSize := UInt32.ofNat data.length
  reserved := 0

def verify (platform : Platform) (header : BlockHeader) (data : List UInt8) : Bool :=
  platform.crc32 data == header.crc32

/-- The bytes `write_to` copies. -/
def writeTo (platform : Platform) (header : BlockHeader) : List UInt8 :=
  leBytes 4 header.crc32.toNat ++
    leBytes 4 (platform.padding header.crc32 header.generation header.dataSize).toNat ++
    leBytes 8 header.generation.toNat ++
    leBytes 4 header.dataSize.toNat ++
    leBytes 4 header.reserved.toNat

/-- `read_from`: the padding bytes are skipped. -/
def readFrom (src : List UInt8) : Option BlockHeader :=
  if src.length < size then none
  else some {
    crc32 := UInt32.ofNat (leValue (src.take 4))
    generation := UInt64.ofNat (leValue ((src.drop 8).take 8))
    dataSize := UInt32.ofNat (leValue ((src.drop 16).take 4))
    reserved := UInt32.ofNat (leValue ((src.drop 20).take 4)) }

@[simp] theorem writeTo_length (platform : Platform) (header : BlockHeader) :
    (writeTo platform header).length = size := by
  simp [writeTo, size]

private theorem ofNat_leValue_leBytes_four (value : UInt32) :
    UInt32.ofNat (leValue (leBytes 4 value.toNat)) = value := by
  rw [leValue_leBytes_of_lt value.toNat_lt, UInt32.ofNat_toNat]

private theorem ofNat_leValue_leBytes_eight (value : UInt64) :
    UInt64.ofNat (leValue (leBytes 8 value.toNat)) = value := by
  rw [leValue_leBytes_of_lt value.toNat_lt, UInt64.ofNat_toNat]

/-- A written header is read back whatever follows it in the block. -/
theorem readFrom_writeTo (platform : Platform) (header : BlockHeader) (rest : List UInt8) :
    readFrom (writeTo platform header ++ rest) = some header := by
  have longEnough : ¬ (writeTo platform header ++ rest).length < size := by
    simp
  rw [readFrom, if_neg longEnough]
  simp [writeTo, List.drop_append, List.drop_of_length_le, ofNat_leValue_leBytes_four,
    ofNat_leValue_leBytes_eight]

/-- Only the first 24 bytes of a block are read. -/
theorem readFrom_append {front : List UInt8} (longEnough : size ≤ front.length)
    (rest : List UInt8) : readFrom (front ++ rest) = readFrom front := by
  have notShort : ¬ (front ++ rest).length < size := by
    rw [List.length_append]
    omega
  rw [readFrom, readFrom, if_neg notShort, if_neg (not_lt.mpr longEnough)]
  unfold size at longEnough
  have crc : (front ++ rest).take 4 = front.take 4 := List.take_append_of_le_length (by omega)
  have field : ∀ {start count : Nat}, start + count ≤ 24 →
      ((front ++ rest).drop start).take count = (front.drop start).take count := by
    intro start count inside
    rw [List.drop_append_of_le_length (by omega), List.take_append_of_le_length]
    rw [List.length_drop]
    omega
  rw [crc, field (by omega), field (by omega), field (by omega)]

/-- The header read from zeroed memory. -/
theorem readFrom_replicate_zero {count : Nat} (longEnough : size ≤ count) :
    readFrom (List.replicate count 0) = some ⟨0, 0, 0, 0⟩ := by
  have notShort : ¬ (List.replicate count (0 : UInt8)).length < size := by
    simpa using longEnough
  rw [readFrom, if_neg notShort]
  simp [List.take_replicate, List.drop_replicate, leValue_replicate_zero]

end BlockHeader

end CmxRdma.BlockStore
