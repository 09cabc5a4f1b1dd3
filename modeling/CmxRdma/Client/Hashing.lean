import CmxRdma.Lib.LittleEndian
import CmxRdma.Lib.Slices
import CmxRdma.Platform

/-!
Contract: `cmx_client/hashing.py`, the hashes every connector uses.

Owns: `hash_token_ids` with the packing of its blocks, `hash_key`, the byte
strings a call hashes, and what equal block hashes say about two sequences.

Does not own: the digest; freedom from collisions among the strings a result is
about is a hypothesis of that result.
-/

namespace CmxRdma.Client

open CmxRdma.Lib.LittleEndian
open CmxRdma.Lib.Slices

/-- The exceptions of the standard library the hashing functions can raise. -/
inductive PyError where
  | valueError
  | structError
deriving DecidableEq, Repr

/-! ## Packing -/

/-- The range of the `i` format. -/
def IsInt32 (token : Int) : Prop := -2 ^ 31 ≤ token ∧ token < 2 ^ 31

instance (token : Int) : Decidable (IsInt32 token) :=
  inferInstanceAs (Decidable (-2 ^ 31 ≤ token ∧ token < 2 ^ 31))

/-- The four bytes of a token: two's complement, least significant first. -/
def int32Bytes (token : Int) : List UInt8 := leBytes 4 (token % 2 ^ 32).toNat

/-- `struct.pack(f"<{len(block)}i", *block)`. -/
def pack (block : List Int) : Except PyError (List UInt8) :=
  if ∀ token ∈ block, IsInt32 token then .ok (block.map int32Bytes).flatten
  else .error .structError

/-- The number four bytes spell in two's complement. -/
def int32Value (bytes : List UInt8) : Int :=
  if leValue bytes < 2 ^ 31 then leValue bytes else leValue bytes - 2 ^ 32

theorem int32Value_int32Bytes {token : Int} (inRange : IsInt32 token) :
    int32Value (int32Bytes token) = token := by
  obtain ⟨low, high⟩ := inRange
  have width : (token % 2 ^ 32).toNat < 256 ^ 4 := by omega
  rw [int32Value, int32Bytes, leValue_leBytes_of_lt width]
  split <;> omega

/-- Packing is injective on the sequences it accepts. -/
theorem flatten_int32Bytes_injective {left right : List Int}
    (leftInRange : ∀ token ∈ left, IsInt32 token) (rightInRange : ∀ token ∈ right, IsInt32 token)
    (same : (left.map int32Bytes).flatten = (right.map int32Bytes).flatten) : left = right := by
  have widths (tokens : List Int) :
      (tokens.map int32Bytes).map List.length = List.replicate tokens.length 4 := by
    simp [Function.comp_def, int32Bytes]
  have sameCount : left.length = right.length := by
    have sameLength := congrArg List.length same
    rw [List.length_flatten, List.length_flatten, widths, widths] at sameLength
    simp only [List.sum_replicate_nat] at sameLength
    omega
  have sameParts : left.map int32Bytes = right.map int32Bytes := by
    rw [List.eq_iff_flatten_eq, widths, widths, sameCount]
    exact ⟨same, rfl⟩
  have decoded (tokens : List Int) (inRange : ∀ token ∈ tokens, IsInt32 token) :
      (tokens.map int32Bytes).map int32Value = tokens := by
    rw [List.map_map]
    exact (List.map_congr_left fun token member =>
      int32Value_int32Bytes (inRange token member)).trans (List.map_id tokens)
  rw [← decoded left leftInRange, sameParts, decoded right rightInRange]

/-! ## Hashing -/

/-- `hash_token_ids`: a block at a time, each hashed by itself. A step of zero is
rejected by `range`, a negative one gives it nothing to do. -/
def hashTokenIds (platform : Platform) (tokenIds : List Int) (blockSize : Int) :
    Except PyError (List PrefixHash) :=
  if blockSize = 0 then .error .valueError
  else if blockSize < 0 then .ok []
  else (slices blockSize.toNat tokenIds).mapM fun block => do
    let raw ← pack block
    return platform.sha256Truncated raw

/-- `hash_key`. -/
def hashKey (platform : Platform) (key : String) : PrefixHash :=
  platform.sha256Truncated (utf8 key)

/-- The strings a call of `hash_token_ids` hashes. -/
def hashedBlocks (tokenIds : List Int) (blockSize : Nat) : List (List UInt8) :=
  (slices blockSize tokenIds).map fun block => (block.map int32Bytes).flatten

theorem hashedBlocks_length (tokenIds : List Int) (blockSize : Nat) :
    (hashedBlocks tokenIds blockSize).length = sliceCount blockSize tokenIds.length := by
  rw [hashedBlocks, List.length_map, slices_length]

theorem hashedBlocks_eq_nil_iff {blockSize : Nat} (positive : 1 ≤ blockSize)
    (tokenIds : List Int) : hashedBlocks tokenIds blockSize = [] ↔ tokenIds = [] := by
  rw [hashedBlocks, List.map_eq_nil_iff, slices_eq_nil_iff positive]

theorem hashedBlocks_getElem? {blockSize index : Nat} {tokenIds : List Int}
    (positive : 1 ≤ blockSize) (begins : index * blockSize < tokenIds.length) :
    (hashedBlocks tokenIds blockSize)[index]? =
      some ((slice blockSize index tokenIds).map int32Bytes).flatten := by
  have inside : index < (slices blockSize tokenIds).length := by
    rwa [slices_length, lt_sliceCount_iff positive]
  rw [hashedBlocks, List.getElem?_map, List.getElem?_eq_getElem inside, slices_getElem,
    Option.map_some]

/-- No two of the strings collide under the truncated digest. -/
def CollisionFree (platform : Platform) (strings : List (List UInt8)) : Prop :=
  ∀ left ∈ strings, ∀ right ∈ strings,
    platform.sha256Truncated left = platform.sha256Truncated right → left = right

instance (platform : Platform) (strings : List (List UInt8)) :
    Decidable (CollisionFree platform strings) :=
  inferInstanceAs (Decidable (∀ left ∈ strings, ∀ right ∈ strings, _ → _))

theorem mapM_eq_ok {α β ε : Type} {f : α → Except ε β} {g : α → β} {items : List α}
    (succeeds : ∀ item ∈ items, f item = .ok (g item)) :
    items.mapM f = .ok (items.map g) := by
  induction items with
  | nil => rfl
  | cons item rest inductionHypothesis =>
      rw [List.mapM_cons, succeeds item List.mem_cons_self,
        inductionHypothesis fun other member => succeeds other (List.mem_cons_of_mem _ member)]
      rfl

/-- On 32-bit tokens every block is hashed. -/
theorem hashTokenIds_eq_ok (platform : Platform) {tokenIds : List Int} {blockSize : Nat}
    (positive : 1 ≤ blockSize) (inRange : ∀ token ∈ tokenIds, IsInt32 token) :
    hashTokenIds platform tokenIds blockSize =
      .ok ((hashedBlocks tokenIds blockSize).map platform.sha256Truncated) := by
  unfold hashTokenIds
  rw [if_neg (by omega), if_neg (by omega), Int.toNat_natCast, hashedBlocks, List.map_map]
  apply mapM_eq_ok
  intro block member
  obtain ⟨index, -, rfl⟩ := List.mem_map.mp member
  have blockInRange : ∀ token ∈ slice blockSize index tokenIds, IsInt32 token :=
    fun token inSlice => inRange token (mem_of_mem_slice inSlice)
  simp only [pack, if_pos blockInRange]
  rfl

/-- Where an item fails and all that fail fail alike, the loop fails so. -/
theorem mapM_eq_error {α β ε : Type} {f : α → Except ε β} {error : ε} {items : List α}
    (alike : ∀ item ∈ items, ∀ other, f item = .error other → other = error)
    (fails : ∃ item ∈ items, f item = .error error) : items.mapM f = .error error := by
  induction items with
  | nil => simp at fails
  | cons item rest inductionHypothesis =>
      rw [List.mapM_cons]
      cases outcome : f item with
      | error other =>
          rw [alike item List.mem_cons_self other outcome]
          rfl
      | ok value =>
          have later : ∃ item ∈ rest, f item = .error error := by simpa [outcome] using fails
          rw [inductionHypothesis (fun other member => alike other (List.mem_cons_of_mem _ member))
            later]
          rfl

/-- A token outside 32 bits makes the packing of its block fail, and the call. -/
theorem hashTokenIds_eq_error (platform : Platform) {tokenIds : List Int} {blockSize : Nat}
    (positive : 1 ≤ blockSize) (outside : ∃ token ∈ tokenIds, ¬ IsInt32 token) :
    hashTokenIds platform tokenIds blockSize = .error .structError := by
  obtain ⟨token, member, notInRange⟩ := outside
  rw [← flatten_slices positive tokenIds] at member
  obtain ⟨block, isSlice, inBlock⟩ := List.mem_flatten.mp member
  unfold hashTokenIds
  rw [if_neg (by omega), if_neg (by omega), Int.toNat_natCast]
  refine mapM_eq_error ?_ ⟨block, isSlice, ?_⟩
  · intro other _ error failed
    by_cases inRange : ∀ token ∈ other, IsInt32 token
    · simp only [pack, if_pos inRange] at failed
      cases failed
    · simp only [pack, if_neg inRange] at failed
      cases failed
      rfl
  · have unpackable : ¬ ∀ token ∈ block, IsInt32 token := fun inRange =>
      notInRange (inRange token inBlock)
    simp only [pack, if_neg unpackable]
    rfl

/-- The call on any tokens. -/
theorem hashTokenIds_eq (platform : Platform) {blockSize : Nat} (positive : 1 ≤ blockSize)
    (tokenIds : List Int) :
    hashTokenIds platform tokenIds blockSize =
      if ∀ token ∈ tokenIds, IsInt32 token then
        .ok ((hashedBlocks tokenIds blockSize).map platform.sha256Truncated)
      else .error .structError := by
  by_cases inRange : ∀ token ∈ tokenIds, IsInt32 token
  · rw [if_pos inRange, hashTokenIds_eq_ok platform positive inRange]
  · have outside : ∃ token ∈ tokenIds, ¬ IsInt32 token := by
      simpa only [not_forall, exists_prop] using inRange
    rw [if_neg inRange, hashTokenIds_eq_error platform positive outside]

/-- Equal hashes of one index identify the whole prefix exactly when equal blocks
there imply equal tokens before: a hash says nothing about earlier blocks. -/
theorem block_hash_identifies_prefix_iff (platform : Platform) (blockSize : Nat)
    (positive : 1 ≤ blockSize) (left right : List Int)
    (leftInRange : ∀ token ∈ left, IsInt32 token) (rightInRange : ∀ token ∈ right, IsInt32 token)
    (collisionFree : CollisionFree platform
      (hashedBlocks left blockSize ++ hashedBlocks right blockSize)) :
    ∃ leftHashes rightHashes,
      hashTokenIds platform left blockSize = .ok leftHashes ∧
      hashTokenIds platform right blockSize = .ok rightHashes ∧
      ∀ index (inLeft : index < leftHashes.length) (inRight : index < rightHashes.length),
        ((leftHashes[index] = rightHashes[index] →
            left.take ((index + 1) * blockSize) = right.take ((index + 1) * blockSize)) ↔
          (slice blockSize index left = slice blockSize index right →
            left.take (index * blockSize) = right.take (index * blockSize))) := by
  refine ⟨_, _, hashTokenIds_eq_ok platform positive leftInRange,
    hashTokenIds_eq_ok platform positive rightInRange, ?_⟩
  intro index inLeft inRight
  simp only [hashedBlocks, List.length_map] at inLeft inRight
  have leftLong := (lt_sliceCount_iff positive _ _).mp (slices_length _ left ▸ inLeft)
  have rightLong := (lt_sliceCount_iff positive _ _).mp (slices_length _ right ▸ inRight)
  -- equal hashes are equal blocks: no collision, and packing is injective
  have hashIff : (platform.sha256Truncated ((slice blockSize index left).map int32Bytes).flatten =
        platform.sha256Truncated ((slice blockSize index right).map int32Bytes).flatten) ↔
      slice blockSize index left = slice blockSize index right := by
    constructor
    · intro sameHash
      have sameBytes := collisionFree _ (List.mem_append_left _ ?_) _
        (List.mem_append_right _ ?_) sameHash
      · exact flatten_int32Bytes_injective
          (fun token member => leftInRange token (mem_of_mem_slice member))
          (fun token member => rightInRange token (mem_of_mem_slice member)) sameBytes
      · rw [hashedBlocks, ← slices_getElem inLeft]
        exact List.mem_map_of_mem (List.getElem_mem _)
      · rw [hashedBlocks, ← slices_getElem inRight]
        exact List.mem_map_of_mem (List.getElem_mem _)
    · intro sameBlock
      rw [sameBlock]
  simp only [hashedBlocks, List.getElem_map, slices_getElem, hashIff,
    take_succ_mul_eq_iff leftLong.le rightLong.le]
  constructor
  · intro identifies sameBlock
    exact (identifies sameBlock).1
  · intro agrees sameBlock
    exact ⟨agrees sameBlock, sameBlock⟩

private theorem collisionFree_one_two_three :
    CollisionFree Platform.release (hashedBlocks [1, 2] 1 ++ hashedBlocks [3, 2] 1) := by
  decide +kernel

/-- Two sequences whose second block is the same after different first blocks. -/
theorem block_hash_identifies_prefix_iff_after_other_block :
    let left : List Int := [1, 2]
    let right : List Int := [3, 2]
    CollisionFree Platform.release (hashedBlocks left 1 ++ hashedBlocks right 1) ∧
      ∃ leftHashes rightHashes,
        hashTokenIds Platform.release left (1 : Nat) = .ok leftHashes ∧
        hashTokenIds Platform.release right (1 : Nat) = .ok rightHashes ∧
        ∀ index (inLeft : index < leftHashes.length) (inRight : index < rightHashes.length),
          ((leftHashes[index] = rightHashes[index] →
              left.take ((index + 1) * 1) = right.take ((index + 1) * 1)) ↔
            (slice 1 index left = slice 1 index right →
              left.take (index * 1) = right.take (index * 1))) := by
  intro left right
  exact ⟨collisionFree_one_two_three, block_hash_identifies_prefix_iff Platform.release 1
    (by decide) left right (by decide) (by decide) collisionFree_one_two_three⟩

/-- With blocks of one token, `[1, 2]` and `[3, 2]` have the same second hash, no
strings collide, and the tokens before differ. -/
theorem block_hash_ignores_earlier_blocks :
    CollisionFree Platform.release (hashedBlocks [1, 2] 1 ++ hashedBlocks [3, 2] 1) ∧
      ∃ first second other,
        hashTokenIds Platform.release [1, 2] (1 : Nat) = .ok [first, second] ∧
        hashTokenIds Platform.release [3, 2] (1 : Nat) = .ok [other, second] ∧
        ([1, 2] : List Int).take 2 ≠ [3, 2].take 2 :=
  ⟨collisionFree_one_two_three, _, _, _,
    hashTokenIds_eq_ok Platform.release (by decide) (by decide),
    hashTokenIds_eq_ok Platform.release (by decide) (by decide), by decide⟩

end CmxRdma.Client
