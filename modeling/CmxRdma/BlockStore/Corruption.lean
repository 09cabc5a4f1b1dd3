import CmxRdma.BlockStore.Allocator
import CmxRdma.Lib.Crc32

/-!
Contract: what `read_verified` makes of a block whose memory changed.

Owns: changes of a block's data bytes within a short window, and that
`read_verified` refuses every block in which such a change reached the data.

Does not own: changes of the header, and changes wider than four bytes, which a
32-bit checksum cannot all detect.
-/

namespace CmxRdma.BlockStore

open CmxRdma.Lib.ByteRegion
open CmxRdma.Memory

/-- The region differs from the old one only behind the header of a handle's block,
within four consecutive bytes. -/
def ShortChange (handle : BlockHandle) (old new : Region) : Prop :=
  (∀ address, new address ≠ old address →
      handle.offset + BlockHeader.size ≤ address ∧ address < handle.offset + handle.size) ∧
    ∃ start, ∀ address, new address ≠ old address → start ≤ address ∧ address < start + 4

namespace BlockAllocator

/-- The allocator after something else wrote to its memory. -/
def withRegion (allocator : BlockAllocator) (region : Region) : BlockAllocator :=
  { allocator with pool := { allocator.pool with region := region } }

/-- A change behind the header leaves the header as it is. -/
theorem headerIn_congr {geometry : Geometry} {old new : Region} {block : Nat}
    (headerFits : BlockHeader.size ≤ geometry.blockSize)
    (agree : ∀ address, block * geometry.blockSize ≤ address →
      address < block * geometry.blockSize + BlockHeader.size → new address = old address) :
    headerIn geometry new block = headerIn geometry old block := by
  have split : geometry.blockSize =
      BlockHeader.size + (geometry.blockSize - BlockHeader.size) := by
    omega
  unfold headerIn
  rw [split, readBytes_add, readBytes_add, ← split, BlockHeader.readFrom_append (by simp),
    BlockHeader.readFrom_append (by simp), readBytes_congr agree]

/-- The checksum in a header refuses other data of the same length that agrees with
the data it was made for outside four bytes. -/
theorem verify_eq_false {platform : Platform} (standard : platform.crc32 = Lib.Digest.crc32)
    {data contents : List UInt8} (generation : UInt64) (start : Nat)
    (sameLength : contents.length = data.length)
    (front : contents.take start = data.take start)
    (back : contents.drop (start + 4) = data.drop (start + 4)) (different : contents ≠ data) :
    (BlockHeader.new platform data generation).verify platform contents = false := by
  have differentSum := Lib.Crc32.crc32_ne_of_window start sameLength front back different
  rw [BlockHeader.verify, BlockHeader.new, standard]
  exact beq_eq_false_iff_ne.mpr differentSum

/-- Over a changed memory that still has the header, `read_verified` judges the bytes
that stand where the data was. -/
theorem readVerified_withRegion {platform : Platform} {allocator : BlockAllocator} {block : Nat}
    {data : List UInt8} {generation : UInt64} {region : Region}
    (holds : Holds platform allocator.pool.geometry allocator.pool.region block data generation)
    (fits : BlockHeader.size + data.length ≤ allocator.pool.geometry.blockSize)
    (lengthLt : data.length < 2 ^ 32)
    (sameHeader : ∀ address, block * allocator.pool.geometry.blockSize ≤ address →
      address < block * allocator.pool.geometry.blockSize + BlockHeader.size →
        region address = allocator.pool.region address) :
    let contents := readBytes region
      (block * allocator.pool.geometry.blockSize + BlockHeader.size) data.length
    (allocator.withRegion region).readVerified platform
        (MemoryPool.handleFor allocator.pool.geometry block) =
      .ok (if (BlockHeader.new platform data generation).verify platform contents
        then some contents else none) := by
  have header : headerIn allocator.pool.geometry region block =
      some (BlockHeader.new platform data generation) := by
    rw [← headerIn_of_holds holds fits]
    exact headerIn_congr (by omega) sameHeader
  have dataSize : (BlockHeader.new platform data generation).dataSize.toNat = data.length := by
    simpa [BlockHeader.new] using lengthLt
  have judged := @readVerified_of_headerIn platform (allocator.withRegion region)
    (MemoryPool.handleFor allocator.pool.geometry block) block _ header
    (by rwa [dataSize]) rfl rfl
  rwa [dataSize] at judged

/-- Short corruption is detected: a change of up to four consecutive bytes that
reaches the data of a written block makes `read_verified` refuse it, if the
checksum is the standard CRC-32. -/
theorem short_corruption_detected {platform : Platform}
    (standard : platform.crc32 = Lib.Digest.crc32) {allocator written : BlockAllocator}
    {data : List UInt8} {location : BlockLocation} {handle : BlockHandle} {corrupted : Region}
    (small : allocator.pool.geometry.blockSize < 2 ^ 32)
    (returned : allocator.allocateAndWrite platform data =
      (written, .ok (some (location, handle))))
    (short : ShortChange handle written.pool.region corrupted)
    (alters : ∃ index < data.length,
      corrupted (handle.offset + BlockHeader.size + index) ≠
        written.pool.region (handle.offset + BlockHeader.size + index)) :
    (written.withRegion corrupted).readVerified platform handle = .ok none := by
  obtain ⟨block, top, fits, -, geometryKept, -, -, regionEq⟩ := allocateAndWrite_eq_some returned
  obtain rfl := allocateAndWrite_handle returned top
  rw [← geometryKept] at fits small regionEq short alters ⊢
  obtain ⟨behindHeader, start, window⟩ := short
  obtain ⟨index, inside, altered⟩ := alters
  have holds : Holds platform written.pool.geometry written.pool.region block data
      allocator.generation := by
    rw [regionEq]
    exact holds_written platform _ _ block data _
  have sameHeader : ∀ address, block * written.pool.geometry.blockSize ≤ address →
      address < block * written.pool.geometry.blockSize + BlockHeader.size →
        corrupted address = written.pool.region address := by
    intro address _ inHeader
    by_contra changed
    exact absurd (behindHeader address changed).1 (not_le.mpr inHeader)
  have different : readBytes corrupted
      (block * written.pool.geometry.blockSize + BlockHeader.size) data.length ≠ data := by
    intro same
    apply altered
    have sameByte := congrArg (·[index]?) (same.trans holds.contents_eq.symm)
    simpa [readBytes, inside, MemoryPool.handleFor] using sameByte
  obtain ⟨front, back⟩ := @readBytes_window _ _ start 4
    (block * written.pool.geometry.blockSize + BlockHeader.size) data.length window
  rw [holds.contents_eq] at front back
  have refused := verify_eq_false standard allocator.generation _ (readBytes_length _ _ _) front
    back different
  have judged := readVerified_withRegion holds fits (by omega) sameHeader
  simp only [refused, Bool.false_eq_true, if_false] at judged
  exact judged

/-- The middle one of three bytes is overwritten. -/
theorem short_corruption_detected_one_byte :
    let allocator := BlockAllocator.new (MemoryPool.fresh Geometry.twoBlocks) 0
    let written := (allocator.allocateAndWrite .release [1, 2, 3]).1
    let handle := MemoryPool.handleFor Geometry.twoBlocks 1
    let corrupted : Region := fun address =>
      if address = handle.offset + BlockHeader.size + 1 then 9 else written.pool.region address
    (written.withRegion corrupted).readVerified .release handle = .ok none := by
  intro allocator written handle corrupted
  have returned : allocator.allocateAndWrite .release [1, 2, 3] =
      (written, .ok (some (allocator.locationFor 1, handle))) :=
    Prod.ext rfl (by decide +kernel)
  have changed : ∀ address, corrupted address ≠ written.pool.region address →
      address = handle.offset + BlockHeader.size + 1 := by
    intro address different
    by_contra elsewhere
    exact different (if_neg elsewhere)
  have short : ShortChange handle written.pool.region corrupted := by
    refine ⟨?_, handle.offset + BlockHeader.size, ?_⟩
    · intro address different
      rw [changed address different]
      decide
    · intro address different
      rw [changed address different]
      decide
  have altered : corrupted (handle.offset + BlockHeader.size + 1) ≠
      written.pool.region (handle.offset + BlockHeader.size + 1) := by
    decide +kernel
  exact short_corruption_detected rfl (by decide) returned short ⟨1, by decide, altered⟩

end BlockAllocator

end CmxRdma.BlockStore
