import CmxRdma.Client.VllmScheduler

/-!
Contract: what the scheduler side counts as matched, and what it then has loaded.

Owns: how many tokens `get_num_new_matched_tokens` claims for any answer of the
agent, the tasks `update_state_after_alloc` records, and where the two methods
and the pages of the allocation agree.

Does not own: the agent's answer, which is any list with one flag per hash; the
worker side that runs the tasks.
-/

namespace CmxRdma.Client

open CmxRdma.Agent
open CmxRdma.Lib.Slices
open CmxRdma.Proto

/-- The request with more load tasks recorded on it. -/
def Request.withTasks (request : Request) (tasks : List LoadTask) : Request :=
  { request with cmxLoadTasks := some (request.cmxLoadTasks.getD [] ++ tasks) }

theorem Request.withTasks_inj {request : Request} {tasks others : List LoadTask} :
    request.withTasks tasks = request.withTasks others ↔ tasks = others := by
  simp [withTasks]

namespace SchedulerConnector

variable {platform : Platform} {connector : SchedulerConnector} {blockSize : Nat}

/-! ## Leading hits -/

/-- A block is counted exactly when it and all before it were found. -/
theorem lt_matchedBlocks_iff (found : List Bool) (index : Nat) :
    index < matchedBlocks found ↔ ∀ earlier ≤ index, found[earlier]? = some true := by
  constructor
  · induction found generalizing index with
    | nil => simp [matchedBlocks]
    | cons hit rest inductionHypothesis =>
        intro counted earlier before
        rw [matchedBlocks] at counted
        split_ifs at counted with isHit
        · cases earlier with
          | zero => simp [isHit]
          | succ earlier =>
              rw [List.getElem?_cons_succ]
              exact inductionHypothesis (index - 1) (by omega) earlier (by omega)
        · exact absurd counted (Nat.not_lt_zero index)
  · intro hits
    exact le_matchedBlocks fun earlier before => hits earlier (Nat.le_of_lt_succ before)

/-- All blocks are counted exactly when none was missed. -/
theorem length_le_matchedBlocks_iff (found : List Bool) :
    found.length ≤ matchedBlocks found ↔ false ∉ found := by
  induction found with
  | nil => simp [matchedBlocks]
  | cons hit rest inductionHypothesis => cases hit <;> simp [matchedBlocks, inductionHypothesis]

theorem matchedBlocks_le_length (found : List Bool) : matchedBlocks found ≤ found.length := by
  induction found with
  | nil => exact Nat.zero_le _
  | cons hit rest inductionHypothesis => cases hit <;> simp [matchedBlocks, inductionHypothesis]

/-- The hashes that were looked up and found, up to the first miss. -/
def leadingHits (prefixHashes : List PrefixHash) (found : List Bool) : List PrefixHash :=
  ((prefixHashes.zip found).takeWhile Prod.snd).map Prod.fst

theorem leadingHits_eq_take {prefixHashes : List PrefixHash} {found : List Bool}
    (flagged : found.length = prefixHashes.length) :
    leadingHits prefixHashes found = prefixHashes.take (matchedBlocks found) := by
  induction prefixHashes generalizing found with
  | nil => simp [leadingHits]
  | cons prefixHash rest inductionHypothesis =>
      cases found with
      | nil => simp at flagged
      | cons hit others =>
          have later := inductionHypothesis (Nat.succ.inj flagged)
          rw [leadingHits] at later
          cases hit <;> simp [leadingHits, matchedBlocks, later]

/-! ## Claimed tokens -/

/-- Whole blocks overrun the tokens exactly when the last block is partial and all
blocks were found. -/
theorem matchedBlocks_mul_le_iff (positive : 1 ≤ blockSize) {found : List Bool} {tokens : Nat}
    (flagged : found.length = sliceCount blockSize tokens) :
    matchedBlocks found * blockSize ≤ tokens ↔ blockSize ∣ tokens ∨ false ∈ found := by
  have bounded := matchedBlocks_le_length found
  by_cases missed : false ∈ found
  · have fewer : matchedBlocks found < sliceCount blockSize tokens := by
      have notAll := (length_le_matchedBlocks_iff found).not.mpr (not_not_intro missed)
      omega
    exact iff_of_true ((lt_sliceCount_iff positive _ _).mp fewer).le (Or.inr missed)
  · have all : matchedBlocks found = sliceCount blockSize tokens :=
      (le_antisymm bounded ((length_le_matchedBlocks_iff found).mpr missed)).trans flagged
    rw [all, sliceCount_mul_le_iff positive, or_iff_left missed]

section Answered

variable {Service : Type}
  {batchLookup : Service → List PrefixHash → String → Service × Except Failure (List Bool)}
  {service : Service} {computed : Nat} {request : Request} {found : List Bool}

/-- For any answer with one flag per hash, the scheduler claims no more tokens than
follow the computed ones exactly when these fill their blocks, or a block was
missed, or it fails on a token outside 32 bits. -/
theorem matched_within_tokens_iff (positive : 1 ≤ blockSize)
    (sized : connector.blockSize = blockSize) (within : computed ≤ request.tokenIds.length)
    (answers : (batchLookup service ((hashedBlocks (request.tokenIds.drop computed) blockSize).map
      platform.sha256Truncated) connector.modelId).2 = .ok found)
    (flagged : found.length = (hashedBlocks (request.tokenIds.drop computed) blockSize).length) :
    let outcome :=
      (connector.getNumNewMatchedTokens platform batchLookup service request computed).2
    ((∀ token ∈ request.tokenIds.drop computed, IsInt32 token) →
        ∃ matched, outcome = .ok matched) ∧
      ((∀ matched, outcome = .ok matched → matched ≤ request.tokenIds.length - computed) ↔
        blockSize ∣ request.tokenIds.length - computed ∨ false ∈ found ∨
          ∃ token ∈ request.tokenIds.drop computed, ¬ IsInt32 token) := by
  intro outcome
  have counted : outcome = _ := getNumNewMatchedTokens_of_answer positive sized answers flagged
  rw [hashedBlocks_length, List.length_drop] at flagged
  have overrun := matchedBlocks_mul_le_iff positive flagged
  by_cases inRange : ∀ token ∈ request.tokenIds.drop computed, IsInt32 token
  · rw [if_pos inRange] at counted
    have noneOutside : ¬ ∃ token ∈ request.tokenIds.drop computed, ¬ IsInt32 token := by
      rintro ⟨token, member, outside⟩
      exact outside (inRange token member)
    refine ⟨fun _ => ⟨_, counted⟩, ?_⟩
    rw [or_iff_left noneOutside, ← overrun, counted]
    constructor
    · intro claims
      have claimed := claims _ rfl
      omega
    · intro fits matched same
      rw [← Except.ok.inj same]
      omega
  · rw [if_neg inRange] at counted
    refine ⟨fun fits => absurd fits inRange, iff_of_true ?_ (Or.inr (Or.inr ?_))⟩
    · intro matched same
      rw [counted] at same
      cases same
    · simpa only [not_forall, exists_prop] using inRange

end Answered

/-- An agent that finds every block, asked about two tokens that fill their block. -/
theorem matched_within_tokens_iff_full_block :
    let connector : SchedulerConnector := ⟨"", 2⟩
    let outcome := (connector.getNumNewMatchedTokens .release
      (fun service _ _ => (service, .ok [true])) () (prompt [1, 2]) 0).2
    (∃ matched, outcome = .ok matched) ∧ ∀ matched, outcome = .ok matched → matched ≤ 2 := by
  intro connector outcome
  have answered := @matched_within_tokens_iff .release connector 2 Unit
    (fun service _ _ => (service, .ok [true])) () 0 (prompt [1, 2]) [true] (by decide) rfl
    (by decide) rfl rfl
  exact ⟨answered.1 (by decide), answered.2.mpr (Or.inl (by decide))⟩

/-- An agent that was sent the block `[1]` lets the scheduler claim two tokens of a
request that has one: the last block is partial and counted as whole. -/
theorem matched_exceeds_tokens :
    let connector : SchedulerConnector := ⟨"", 2⟩
    (connector.getNumNewMatchedTokens .release (AsyncCmxClient.batchLookup .release) savedOne
        (prompt [1]) 0).2 = .ok 2 ∧
      (prompt [1]).tokenIds.length = 1 := by
  decide +kernel

/-! ## Recorded tasks -/

/-- The tasks `update_state_after_alloc` appends for a number of tokens. -/
def recordedTasks (platform : Platform) (connector : SchedulerConnector) (tokenIds : List Int)
    (blockIds : List Nat) (count : Nat) : List LoadTask :=
  ((hashedBlocks (tokenIds.take count) connector.blockSize.toNat).map
    platform.sha256Truncated).zipIdx.map fun (prefixHash, index) =>
      connector.loadTask blockIds count prefixHash index

variable {request : Request} {blocks : AllocatedBlocks} {count : Nat}

theorem map_prefixHash_recordedTasks (sized : connector.blockSize = blockSize)
    (tokenIds : List Int) (blockIds : List Nat) (count : Nat) :
    (connector.recordedTasks platform tokenIds blockIds count).map LoadTask.prefixHash =
      (hashedBlocks (tokenIds.take count) blockSize).map platform.sha256Truncated := by
  rw [recordedTasks, List.map_map, sized, Int.toNat_natCast]
  exact List.zipIdx_map_fst 0 _

/-- The tasks are recorded, or packing a token outside 32 bits fails. -/
theorem updateStateAfterAlloc_eq (positive : 1 ≤ blockSize)
    (sized : connector.blockSize = blockSize) (nonempty : 1 ≤ count) :
    connector.updateStateAfterAlloc platform request blocks count =
      if ∀ token ∈ request.tokenIds.take count, IsInt32 token then
        .ok (request.withTasks
          (connector.recordedTasks platform request.tokenIds (extractBlockIds blocks) count))
      else .error (.hashing .structError) := by
  rw [updateStateAfterAlloc, if_neg (by omega), recordedTasks, Int.toNat_natCast, sized,
    Int.toNat_natCast, hashTokenIds_eq platform positive]
  by_cases inRange : ∀ token ∈ request.tokenIds.take count, IsInt32 token
  · rw [if_pos inRange, if_pos inRange]
    rfl
  · rw [if_neg inRange, if_neg inRange]

/-! ## What was matched and what is loaded -/

/-- The string a block of tokens is packed into. -/
def packed (block : List Int) : List UInt8 := (block.map int32Bytes).flatten

/-- Two different strings with one truncated digest. -/
def Collide (platform : Platform) (left right : List UInt8) : Prop :=
  left ≠ right ∧ platform.sha256Truncated left = platform.sha256Truncated right

/-- The block of an index counted from the start of the request has the tokens of the
block counted from the first token that is not computed, or its string collides with
that block's. -/
def SameBlock (platform : Platform) (blockSize : Nat) (tokenIds : List Int)
    (computed index : Nat) : Prop :=
  slice blockSize index tokenIds = slice blockSize index (tokenIds.drop computed) ∨
    (∀ token ∈ slice blockSize index tokenIds, IsInt32 token) ∧
      Collide platform (packed (slice blockSize index tokenIds))
        (packed (slice blockSize index (tokenIds.drop computed)))

/-- Where the tokens behind the computed ones fit into 32 bits, the two blocks of an
index agree exactly when the first one can be packed and has the second's hash. -/
theorem sameBlock_iff {tokenIds : List Int} {computed : Nat}
    (inRange : ∀ token ∈ tokenIds.drop computed, IsInt32 token) (index : Nat) :
    SameBlock platform blockSize tokenIds computed index ↔
      (∀ token ∈ slice blockSize index tokenIds, IsInt32 token) ∧
        platform.sha256Truncated (packed (slice blockSize index tokenIds)) =
          platform.sha256Truncated (packed (slice blockSize index (tokenIds.drop computed))) := by
  have behind : ∀ token ∈ slice blockSize index (tokenIds.drop computed), IsInt32 token :=
    fun token member => inRange token (mem_of_mem_slice member)
  constructor
  · rintro (same | ⟨fits, -, sameHash⟩)
    · rw [same]
      exact ⟨behind, rfl⟩
    · exact ⟨fits, sameHash⟩
  · rintro ⟨fits, sameHash⟩
    by_cases sameString : packed (slice blockSize index tokenIds) =
        packed (slice blockSize index (tokenIds.drop computed))
    · exact Or.inl (flatten_int32Bytes_injective fits behind sameString)
    · exact Or.inr ⟨fits, sameString, sameHash⟩

/-- The hashes of the first blocks. -/
theorem take_hashes {tokenIds : List Int} {count : Nat}
    (covered : count ≤ sliceCount blockSize tokenIds.length) :
    ((hashedBlocks tokenIds blockSize).map platform.sha256Truncated).take count =
      (List.range count).map fun index =>
        platform.sha256Truncated (packed (slice blockSize index tokenIds)) := by
  rw [hashedBlocks, List.map_map, ← List.map_take, take_slices covered, List.map_map]
  rfl

/-- The hashes of a prefix up to a block boundary. -/
theorem hashes_take_mul (positive : 1 ≤ blockSize) {tokenIds : List Int} {count : Nat}
    (covered : count ≤ sliceCount blockSize tokenIds.length) :
    (hashedBlocks (tokenIds.take (count * blockSize)) blockSize).map platform.sha256Truncated =
      (List.range count).map fun index =>
        platform.sha256Truncated (packed (slice blockSize index tokenIds)) := by
  rw [hashedBlocks, slices_take_mul positive covered, List.map_map, take_slices covered,
    List.map_map]
  rfl

/-- A prefix up to a block boundary fits into 32 bits exactly when its blocks do. -/
theorem inRange_take_mul_iff (tokenIds : List Int) (blockSize count : Nat) :
    (∀ token ∈ tokenIds.take (count * blockSize), IsInt32 token) ↔
      ∀ index < count, ∀ token ∈ slice blockSize index tokenIds, IsInt32 token := by
  rw [← flatten_map_slice]
  simp only [List.mem_flatten, List.mem_map, List.mem_range]
  grind

/-- For a number of leading blocks, the recorded tasks have the hashes looked up
behind the computed tokens exactly when these blocks agree. -/
theorem recorded_hashes_iff (blocks : AllocatedBlocks) (positive : 1 ≤ blockSize)
    (sized : connector.blockSize = blockSize) {computed : Nat}
    (inRange : ∀ token ∈ request.tokenIds.drop computed, IsInt32 token) (nonempty : 1 ≤ count)
    (covered : count ≤ sliceCount blockSize (request.tokenIds.drop computed).length) :
    (∃ tasks, connector.updateStateAfterAlloc platform request blocks (count * blockSize : Nat) =
          .ok (request.withTasks tasks) ∧
        tasks.length = count ∧
        tasks.map LoadTask.prefixHash = ((hashedBlocks (request.tokenIds.drop computed)
          blockSize).map platform.sha256Truncated).take count) ↔
      ∀ index < count, SameBlock platform blockSize request.tokenIds computed index := by
  have coveredAll : count ≤ sliceCount blockSize request.tokenIds.length := by
    refine covered.trans (sliceCount_mono blockSize ?_)
    rw [List.length_drop]
    exact Nat.sub_le _ _
  have recorded := @map_prefixHash_recordedTasks platform _ _ sized request.tokenIds
    (extractBlockIds blocks) (count * blockSize)
  rw [hashes_take_mul positive coveredAll] at recorded
  rw [updateStateAfterAlloc_eq positive sized (Nat.mul_pos nonempty positive), take_hashes covered]
  simp only [sameBlock_iff inRange, inRange_take_mul_iff]
  constructor
  · rintro ⟨tasks, updated, -, hashes⟩ index inside
    split_ifs at updated with fits
    obtain rfl := Request.withTasks_inj.mp (Except.ok.inj updated)
    rw [recorded, List.map_inj_left] at hashes
    exact ⟨fits index inside, hashes index (List.mem_range.mpr inside)⟩
  · intro agree
    rw [if_pos fun index inside => (agree index inside).1]
    refine ⟨_, rfl, ?_, ?_⟩
    · rw [← List.length_map LoadTask.prefixHash, recorded, List.length_map, List.length_range]
    · rw [recorded, List.map_inj_left]
      exact fun index member => (agree index (List.mem_range.mp member)).2

/-- For any answer with one flag per hash, the tasks recorded for the matched tokens
are those of the hashes that were found exactly when every leading hit's block,
counted from the start of the request, has the tokens of the block that was looked
up, collisions apart. -/
theorem loads_what_was_matched_iff {Service : Type}
    {batchLookup : Service → List PrefixHash → String → Service × Except Failure (List Bool)}
    {service : Service} {computed : Nat} {request : Request} {found : List Bool}
    (blocks : AllocatedBlocks) (positive : 1 ≤ blockSize)
    (sized : connector.blockSize = blockSize)
    (answers : (batchLookup service ((hashedBlocks (request.tokenIds.drop computed) blockSize).map
      platform.sha256Truncated) connector.modelId).2 = .ok found)
    (flagged : found.length = (hashedBlocks (request.tokenIds.drop computed) blockSize).length) :
    (∀ matched lookedUp,
      (connector.getNumNewMatchedTokens platform batchLookup service request computed).2 =
        .ok matched →
      hashTokenIds platform (request.tokenIds.drop computed) blockSize = .ok lookedUp →
      0 < matched →
      ∃ tasks, connector.updateStateAfterAlloc platform request blocks matched =
          .ok (request.withTasks tasks) ∧
        tasks.length = matched / blockSize ∧
        tasks.map LoadTask.prefixHash = leadingHits lookedUp found) ↔
      (∃ token ∈ request.tokenIds.drop computed, ¬ IsInt32 token) ∨
        ∀ index, (∀ earlier ≤ index, found[earlier]? = some true) →
          SameBlock platform blockSize request.tokenIds computed index := by
  have counted : _ = _ := getNumNewMatchedTokens_of_answer positive sized answers flagged
  by_cases inRange : ∀ token ∈ request.tokenIds.drop computed, IsInt32 token
  · have noneOutside : ¬ ∃ token ∈ request.tokenIds.drop computed, ¬ IsInt32 token := by
      rintro ⟨token, member, outside⟩
      exact outside (inRange token member)
    have covered : matchedBlocks found ≤
        sliceCount blockSize (request.tokenIds.drop computed).length := by
      rw [← hashedBlocks_length, ← flagged]
      exact matchedBlocks_le_length found
    have hits := @leadingHits_eq_take ((hashedBlocks (request.tokenIds.drop computed)
      blockSize).map platform.sha256Truncated) found (by rw [flagged, List.length_map])
    rw [if_pos inRange, ← Nat.cast_mul] at counted
    rw [or_iff_right noneOutside, hashTokenIds_eq_ok platform positive inRange]
    simp only [← lt_matchedBlocks_iff]
    rcases Nat.eq_zero_or_pos (matchedBlocks found) with nothing | something
    · rw [nothing, Nat.zero_mul] at counted
      refine iff_of_true ?_ (by simp [nothing])
      intro matched lookedUp isMatched _ positiveMatch
      rw [counted] at isMatched
      cases isMatched
      exact absurd positiveMatch (lt_irrefl 0)
    · have whole : ((matchedBlocks found * blockSize : Nat) : Int) / blockSize =
          matchedBlocks found := by
        rw [Nat.cast_mul, Int.mul_ediv_cancel _ (by omega)]
      rw [← recorded_hashes_iff blocks positive sized inRange something covered, ← hits]
      constructor
      · intro loads
        obtain ⟨tasks, updated, counts, hashes⟩ := loads _ _ counted rfl
          (by exact_mod_cast Nat.mul_pos something positive)
        rw [whole] at counts
        exact ⟨tasks, updated, by exact_mod_cast counts, hashes⟩
      · rintro ⟨tasks, updated, counts, hashes⟩ matched lookedUp isMatched isLookedUp -
        obtain rfl := Except.ok.inj (counted.symm.trans isMatched)
        obtain rfl := Except.ok.inj isLookedUp
        exact ⟨tasks, updated, by rw [whole, counts], hashes⟩
  · rw [if_neg inRange] at counted
    refine iff_of_true ?_ (Or.inl (by simpa only [not_forall, exists_prop] using inRange))
    intro matched lookedUp isMatched
    rw [counted] at isMatched
    cases isMatched

/-- With the first token computed, of three where the second repeats it and only the second
is found: what was matched is loaded, since the block at the start is the same. -/
theorem loads_what_was_matched_iff_of_repeated_token :
    let connector : SchedulerConnector := ⟨"", 1⟩
    ∀ matched lookedUp,
      (connector.getNumNewMatchedTokens .release
        (fun service _ _ => (service, .ok [true, false])) () (prompt [1, 1, 2]) (1 : Nat)).2 =
          .ok matched →
      hashTokenIds .release [1, 2] (1 : Nat) = .ok lookedUp → 0 < matched →
      ∃ tasks, connector.updateStateAfterAlloc .release (prompt [1, 1, 2]) (.list [5]) matched =
          .ok ((prompt [1, 1, 2]).withTasks tasks) ∧
        tasks.length = matched / (1 : Nat) ∧
        tasks.map LoadTask.prefixHash = leadingHits lookedUp [true, false] := by
  intro connector
  refine (@loads_what_was_matched_iff .release connector 1 Unit
    (fun service _ _ => (service, .ok [true, false])) () 1 (prompt [1, 1, 2]) [true, false]
    (.list [5]) (by decide) rfl rfl rfl).mpr (Or.inr fun index hits => ?_)
  match index with
  | 0 => exact Or.inl rfl
  | later + 1 => exact absurd (hits 1 (Nat.le_add_left 1 later)) (by decide)

/-- An agent that was sent the block `[1]`, asked about `[2, 1]` with the first token
computed: the block `[1]` is matched, and the task recorded for it is that of `[2]`. -/
theorem loads_other_than_matched :
    let connector : SchedulerConnector := ⟨"", 1⟩
    let asked := Platform.release.sha256Truncated (int32Bytes 1)
    let recorded := Platform.release.sha256Truncated (int32Bytes 2)
    hashTokenIds .release ((prompt [2, 1]).tokenIds.drop 1) 1 = .ok [asked] ∧
      (connector.getNumNewMatchedTokens .release (AsyncCmxClient.batchLookup .release) savedOne
        (prompt [2, 1]) 1).2 = .ok 1 ∧
      connector.updateStateAfterAlloc .release (prompt [2, 1]) (.list [5]) 1 =
        .ok ((prompt [2, 1]).withTasks [⟨recorded, [5], 1⟩]) ∧
      recorded ≠ asked := by
  decide +kernel

/-! ## The pages of a task -/

/-- What depends on a task's index alone, over all tasks. -/
theorem map_recordedTasks {Value : Type} (view : LoadTask → Value) (ofIndex : Nat → Value)
    (sized : connector.blockSize = blockSize) {tokenIds : List Int} {blockIds : List Nat}
    (within : count ≤ tokenIds.length)
    (viewed : ∀ prefixHash index,
      view (connector.loadTask blockIds count prefixHash index) = ofIndex index) :
    (connector.recordedTasks platform tokenIds blockIds count).map view =
      (List.range (sliceCount blockSize count)).map ofIndex := by
  have byIndex : view ∘ (fun entry : PrefixHash × Nat =>
      connector.loadTask blockIds count entry.1 entry.2) = ofIndex ∘ Prod.snd := by
    funext entry
    exact viewed entry.1 entry.2
  rw [recordedTasks, List.map_map, byIndex, ← List.map_map, List.zipIdx_map_snd, List.length_map,
    hashedBlocks_length, List.length_take, Nat.min_eq_left within, sized, Int.toNat_natCast,
    List.range_eq_range']

/-- What is seen of the tasks, index by index, is seen of the task of an index. -/
theorem view_eq_ofIndex {Value : Type} {view : LoadTask → Value} {ofIndex : Nat → Value}
    {tasks : List LoadTask} {total index : Nat} {task : LoadTask}
    (viewed : tasks.map view = (List.range total).map ofIndex)
    (isTask : tasks[index]? = some task) : view task = ofIndex index := by
  have inside : index < total := by
    have sameLength := congrArg List.length viewed
    rw [List.length_map, List.length_map, List.length_range] at sameLength
    exact sameLength ▸ (List.getElem?_eq_some_iff.mp isTask).1
  have entry := congrArg (·[index]?) viewed
  simp only [List.getElem?_map, isTask, List.getElem?_range inside] at entry
  exact Option.some.inj entry

theorem map_blockIds_recordedTasks (sized : connector.blockSize = blockSize)
    {tokenIds : List Int} (blockIds : List Nat) (within : count ≤ tokenIds.length) :
    (connector.recordedTasks platform tokenIds blockIds count).map LoadTask.blockIds =
      (List.range (sliceCount blockSize count)).map fun index => slice blockSize index blockIds := by
  refine map_recordedTasks LoadTask.blockIds _ sized within fun prefixHash index => ?_
  simp only [loadTask, sized, Int.toNat_natCast]

theorem map_numTokens_recordedTasks (sized : connector.blockSize = blockSize)
    {tokenIds : List Int} (blockIds : List Nat) (within : count ≤ tokenIds.length) :
    (connector.recordedTasks platform tokenIds blockIds count).map LoadTask.numTokens =
      (List.range (sliceCount blockSize count)).map fun index =>
        min blockSize (count - index * blockSize) := by
  refine map_recordedTasks LoadTask.numTokens _ sized within fun prefixHash index => ?_
  simp only [loadTask, sized, ← Nat.cast_mul]
  omega

/-- With blocks of one token, or a single page, the slice of a block is its page. -/
theorem slice_eq_page {blockIds : List Nat} {index page : Nat}
    (single : blockSize = 1 ∨ blockIds.length = 1) (positive : 1 ≤ blockSize)
    (isPage : blockIds[index]? = some page) : slice blockSize index blockIds = [page] := by
  rcases single with rfl | onePage
  · rw [slice, Nat.mul_one, List.take_one, List.head?_drop, isPage]
    rfl
  · obtain ⟨only, rfl⟩ := List.length_eq_one_iff.mp onePage
    obtain ⟨inside, rfl⟩ := List.getElem?_eq_some_iff.mp isPage
    obtain rfl : index = 0 := by simpa using inside
    rw [slice, Nat.zero_mul, List.drop_zero, List.take_of_length_le (by simpa using positive)]
    rfl

/-- The first slice is a single page only with blocks of one token or a single page. -/
theorem single_of_slice {blockIds : List Nat} {page : Nat}
    (isPage : slice blockSize 0 blockIds = [page]) : blockSize = 1 ∨ blockIds.length = 1 := by
  have lengths := congrArg List.length isPage
  rw [slice_length, Nat.zero_mul, List.length_singleton] at lengths
  omega

/-- Where the allocation has a page for every block, each task gets the page and the
tokens of its own block exactly when the tokens fit into 32 bits and blocks have one
token or there is a single page. -/
theorem pages_of_own_block_iff (positive : 1 ≤ blockSize)
    (sized : connector.blockSize = blockSize) (nonempty : 1 ≤ count)
    (within : count ≤ request.tokenIds.length)
    (paged : sliceCount blockSize count ≤ (extractBlockIds blocks).length) :
    (∃ tasks, connector.updateStateAfterAlloc platform request blocks count =
          .ok (request.withTasks tasks) ∧
        tasks.length = sliceCount blockSize count ∧
        (∀ index task, tasks[index]? = some task →
          (∃ page, (extractBlockIds blocks)[index]? = some page ∧ task.blockIds = [page]) ∧
            task.numTokens = min blockSize (count - index * blockSize)) ∧
        (tasks.map LoadTask.numTokens).sum = count ∧
        (tasks.map LoadTask.blockIds).flatten =
          (extractBlockIds blocks).take (sliceCount blockSize count)) ↔
      (∀ token ∈ request.tokenIds.take count, IsInt32 token) ∧
        (blockSize = 1 ∨ (extractBlockIds blocks).length = 1) := by
  have pages := @map_blockIds_recordedTasks platform _ _ _ sized _ (extractBlockIds blocks) within
  have tokens := @map_numTokens_recordedTasks platform _ _ _ sized _ (extractBlockIds blocks) within
  have first : 0 < sliceCount blockSize count :=
    (lt_sliceCount_iff positive 0 count).mpr (by omega)
  rw [updateStateAfterAlloc_eq positive sized nonempty]
  generalize connector.recordedTasks platform request.tokenIds (extractBlockIds blocks) count =
    recorded at pages tokens
  have counted : recorded.length = sliceCount blockSize count := by
    rw [← List.length_map LoadTask.numTokens, tokens, List.length_map, List.length_range]
  constructor
  · rintro ⟨tasks, updated, -, own, -⟩
    split_ifs at updated with inRange
    obtain rfl := Request.withTasks_inj.mp (Except.ok.inj updated)
    have isFirst := List.getElem?_eq_getElem (show 0 < recorded.length by omega)
    obtain ⟨⟨page, -, isPage⟩, -⟩ := own 0 _ isFirst
    exact ⟨inRange, single_of_slice ((view_eq_ofIndex pages isFirst).symm.trans isPage)⟩
  · rintro ⟨inRange, single⟩
    rw [if_pos inRange]
    refine ⟨recorded, rfl, counted, ?_, ?_, ?_⟩
    · intro index task isTask
      have inside : index < (extractBlockIds blocks).length :=
        (counted ▸ (List.getElem?_eq_some_iff.mp isTask).1).trans_le paged
      have isPage := List.getElem?_eq_getElem inside
      have ownTokens := view_eq_ofIndex tokens isTask
      refine ⟨⟨_, isPage, ?_⟩, ownTokens⟩
      rw [view_eq_ofIndex pages isTask, slice_eq_page single positive isPage]
    · rw [tokens, sum_slice_lengths positive]
    · rw [pages, flatten_map_slice]
      rcases single with rfl | onePage
      · rw [Nat.mul_one]
      · have reaches : 1 ≤ sliceCount blockSize count * blockSize := Nat.mul_pos first positive
        rw [List.take_of_length_le (by omega), List.take_of_length_le (by omega)]

/-- Blocks of one token: each of two tasks gets its page. -/
theorem pages_of_own_block_iff_one_token :
    let connector : SchedulerConnector := ⟨"", (1 : Nat)⟩
    ∃ tasks, connector.updateStateAfterAlloc .release (prompt [1, 2]) (.list [7, 8]) (2 : Nat) =
        .ok ((prompt [1, 2]).withTasks tasks) ∧
      tasks.length = 2 ∧
      (∀ index task, tasks[index]? = some task →
        (∃ page, [7, 8][index]? = some page ∧ task.blockIds = [page]) ∧
          task.numTokens = min 1 (2 - index * 1)) ∧
      (tasks.map LoadTask.numTokens).sum = 2 ∧ (tasks.map LoadTask.blockIds).flatten = [7, 8] := by
  intro connector
  exact (@pages_of_own_block_iff .release connector 1 (prompt [1, 2]) (.list [7, 8]) 2 (by decide)
    rfl (by decide) (by decide) (by decide)).mpr ⟨by decide, Or.inl rfl⟩

/-- Three tokens in blocks of two, with the pages 7 and 8: the first task gets both
pages and the second none. -/
theorem pages_of_other_blocks :
    let connector : SchedulerConnector := ⟨"", 2⟩
    connector.updateStateAfterAlloc .release (prompt [1, 2, 3]) (.list [7, 8]) 3 =
      .ok ((prompt [1, 2, 3]).withTasks
        [⟨Platform.release.sha256Truncated (packed [1, 2]), [7, 8], 2⟩,
          ⟨Platform.release.sha256Truncated (packed [3]), [], 1⟩]) := by
  decide +kernel

end SchedulerConnector

end CmxRdma.Client
