import CmxRdma.Agent.CrossKeyRead
import CmxRdma.Agent.ModelIsolation
import CmxRdma.Client.LayerSaves
import CmxRdma.Client.LoadFlow

/-!
Contract: where the bytes come from that an engine loads.

Owns: blocks of token sequences as the connectors of engines name them, runs of any
number of engines on one agent, interleaved step by step, and the way from a delivery
back to the save it came from, through the index key, the model id and the block hash.
A block is named by its own tokens: what stands before it in its sequence is not part
of the name, so a save and the load it answers agree on the block and not on the prefix.

Does not own: Deletes, which no engine sends; with them a Get can deliver bytes of any
key, see `CrossKeyRead`.
-/

namespace CmxRdma.Agent

open CmxRdma.BlockStore
open CmxRdma.Lib.Transition
open CmxRdma.Memory

/-! ## Agents that get no Deletes -/

/-- The step of a request that frees no block; a Store fits the `u32` length of a header. -/
def Action.FreesNothing : Action → Prop
  | .storeWrite _ data => data.length < 2 ^ 32
  | .storeInsert _ _ | .lookup _ | .getLookup _ | .getRead _ => True
  | .deleteRemove _ | .deleteFree _ => False

/-- Blocks that Gets have copied are off the free list, and writes, Gets in flight and
deliveries come from the requests of the run. -/
structure System.Attributed (platform : Platform) (geometry : Geometry) (actions : List Action)
    (system : System) : Prop where
  faithful : system.Faithful platform geometry
  copied : ∀ pending ∈ system.gets, ∀ location ∈ pending.entry.blocks,
    blockOf location ∉ system.allocator.pool.freeList
  written : ∀ write ∈ system.writes, .storeWrite write.key write.data ∈ actions
  asked : ∀ pending ∈ system.gets, .getLookup pending.key ∈ actions
  answered : ∀ delivery ∈ system.deliveries, .getLookup delivery.key ∈ actions

section Steps

variable {platform : Platform} {geometry : Geometry} {system : System} {action : Action}

/-- A write frees nothing, also when it panics. -/
theorem mem_freeList_of_allocateAndWrite {allocator after : BlockAllocator} {data : List UInt8}
    {result : Except Panic (Option (BlockLocation × BlockHandle))} {block : Nat}
    (outcome : allocator.allocateAndWrite platform data = (after, result))
    (free : block ∈ after.pool.freeList) : block ∈ allocator.pool.freeList := by
  rcases result with panic | refused | ⟨location, handle⟩
  · obtain ⟨-, ⟨-, rfl⟩ | ⟨-, -, taken, freeEq, -⟩⟩ :=
      BlockAllocator.allocateAndWrite_eq_error outcome
    · exact free
    · rw [freeEq]
      exact List.mem_append_left _ free
  · obtain ⟨rfl, -⟩ := BlockAllocator.allocateAndWrite_eq_none outcome
    exact free
  · obtain ⟨taken, freeEq, -⟩ := BlockAllocator.allocateAndWrite_eq_some outcome
    rw [freeEq]
    exact List.mem_append_left _ free

theorem System.mem_freeList_of_step (freesNothing : action.FreesNothing) {block : Nat}
    (free : block ∈ (system.step platform action).allocator.pool.freeList) :
    block ∈ system.allocator.pool.freeList := by
  cases action with
  | storeWrite key data =>
      rcases outcome : system.allocator.allocateAndWrite platform data with ⟨allocator, result⟩
      apply mem_freeList_of_allocateAndWrite outcome
      rcases result with panic | refused | ⟨location, handle⟩ <;>
        simpa only [System.step, outcome] using free
  | storeInsert position now =>
      cases selected : system.stores[position]? <;>
        simpa only [System.step, selected] using free
  | lookup key => exact free
  | getLookup key =>
      rcases outcome : system.index.lookup key with ⟨index, _ | entry⟩ <;>
        simpa only [System.step, outcome] using free
  | getRead position =>
      cases selected : system.gets[position]? <;> simpa only [System.step, selected] using free
  | deleteRemove key | deleteFree position => exact freesNothing.elim

/-- The write of a Store concerns no Get. -/
theorem System.frame_storeWrite (key : PrefixHash) (data : List UInt8) :
    (system.step platform (.storeWrite key data)).gets = system.gets ∧
      (system.step platform (.storeWrite key data)).deliveries = system.deliveries := by
  rcases outcome : system.allocator.allocateAndWrite platform data with ⟨allocator, result⟩
  rcases result with panic | refused | ⟨location, handle⟩ <;>
    simp only [System.step, outcome, and_self]

/-- A write is the Store's own. -/
theorem System.mem_writes_of_step {write : Write}
    (member : write ∈ (system.step platform action).writes) :
    write ∈ system.writes ∨ action = .storeWrite write.key write.data := by
  by_cases isWrite : ∃ key data, action = .storeWrite key data
  · obtain ⟨key, data, rfl⟩ := isWrite
    rcases outcome : system.allocator.allocateAndWrite platform data with ⟨allocator, result⟩
    rcases result with panic | refused | ⟨location, handle⟩ <;>
      simp only [System.step, outcome] at member
    · exact Or.inl member
    · exact Or.inl member
    · rcases List.mem_append.mp member with old | new
      · exact Or.inl old
      · obtain rfl := List.mem_singleton.mp new
        exact Or.inr rfl
  · rw [System.writes_step fun key data same => isWrite ⟨key, data, same⟩] at member
    exact Or.inl member

/-- A Get in flight copied the entry of its key. -/
theorem System.mem_gets_of_step (freesNothing : action.FreesNothing) {pending : PendingGet}
    (member : pending ∈ (system.step platform action).gets) :
    pending ∈ system.gets ∨ action = .getLookup pending.key ∧
      system.index.map.lookup pending.key = some pending.entry := by
  cases action with
  | storeWrite key data =>
      rw [(System.frame_storeWrite key data).1] at member
      exact Or.inl member
  | storeInsert position now =>
      cases selected : system.stores[position]? <;>
        exact Or.inl (by simpa only [System.step, selected] using member)
  | lookup key => exact Or.inl member
  | getLookup key =>
      rcases outcome : system.index.lookup key with ⟨index, _ | entry⟩ <;>
        simp only [System.step, outcome] at member
      · exact Or.inl member
      · rcases List.mem_append.mp member with old | new
        · exact Or.inl old
        · obtain rfl := List.mem_singleton.mp new
          refine Or.inr ⟨rfl, ?_⟩
          rw [← BlockIndex.lookup_snd, outcome]
  | getRead position =>
      cases selected : system.gets[position]? <;> simp only [System.step, selected] at member
      · exact Or.inl member
      · exact Or.inl (List.mem_of_mem_eraseIdx member)
  | deleteRemove key | deleteFree position => exact freesNothing.elim

/-- A delivery carries the key of a Get in flight. -/
theorem System.mem_deliveries_of_step {delivery : Delivery}
    (member : delivery ∈ (system.step platform action).deliveries) :
    delivery ∈ system.deliveries ∨ ∃ pending ∈ system.gets, pending.key = delivery.key := by
  by_cases isWrite : ∃ key data, action = .storeWrite key data
  · obtain ⟨key, data, rfl⟩ := isWrite
    rw [(System.frame_storeWrite key data).2] at member
    exact Or.inl member
  · rcases System.mem_deliveries_step (fun key data same => isWrite ⟨key, data, same⟩) member with
      old | ⟨pending, inFlight, sent⟩
    · exact Or.inl old
    · refine Or.inr ⟨pending, inFlight, ?_⟩
      obtain ⟨message, -, shown⟩ := List.mem_filterMap.mp sent
      split at shown
      · obtain rfl := Option.some.inj shown
        rfl
      · cases shown

/-- No Store takes a block that a Get has copied: nothing gives it back. -/
theorem System.Attributed.readsUndisturbed {actions : List Action}
    (attributed : system.Attributed platform geometry actions)
    (freesNothing : action.FreesNothing) : system.ReadsUndisturbed action := by
  cases action with
  | storeWrite key data =>
      refine fun _ => ⟨freesNothing, fun block top pending inFlight location inBlocks same => ?_⟩
      apply attributed.copied pending inFlight location inBlocks
      rw [same]
      exact List.mem_of_getLast? top
  | _ => trivial

/-- One step of one of the requests of the run. -/
theorem System.Attributed.step {actions : List Action} (small : geometry.totalBlocks ≤ 2 ^ 32)
    (attributed : system.Attributed platform geometry actions) (member : action ∈ actions)
    (freesNothing : action.FreesNothing) :
    (system.step platform action).Attributed platform geometry actions where
  faithful := step_faithful small platform system action
    (attributed.readsUndisturbed freesNothing) attributed.faithful
  copied := by
    intro pending inFlight location inBlocks free
    have wasFree := System.mem_freeList_of_step freesNothing free
    rcases System.mem_gets_of_step freesNothing inFlight with old | ⟨-, found⟩
    · exact attributed.copied pending old location inBlocks wasFree
    · exact attributed.faithful.exclusive.notMem_freeList
        (System.mem_held_of_lookup found inBlocks) wasFree
  written := by
    intro write inHistory
    rcases System.mem_writes_of_step inHistory with old | rfl
    · exact attributed.written write old
    · exact member
  asked := by
    intro pending inFlight
    rcases System.mem_gets_of_step freesNothing inFlight with old | ⟨rfl, -⟩
    · exact attributed.asked pending old
    · exact member
  answered := by
    intro delivery inHistory
    rcases System.mem_deliveries_of_step inHistory with old | ⟨pending, inFlight, sameKey⟩
    · exact attributed.answered delivery old
    · rw [← sameKey]
      exact attributed.asked pending inFlight

end Steps

/-- Without Deletes a delivery is the data of a Store of the run, under the key of a Get
of the run. -/
theorem run_attributed (platform : Platform) {geometry : Geometry}
    (small : geometry.totalBlocks ≤ 2 ^ 32) (nodeId : UInt32) (capacity : Nat)
    {actions : List Action} (freesNothing : ∀ action ∈ actions, action.FreesNothing) :
    (run (System.step platform) (System.new geometry nodeId capacity) actions).Attributed
      platform geometry actions := by
  refine run_invariant_of_mem (fun system action member attributed =>
    attributed.step small member (freesNothing action member)) ?_
  refine ⟨new_faithful platform geometry nodeId capacity, ?_, ?_, ?_, ?_⟩ <;>
    · intro item member
      cases member

end CmxRdma.Agent

namespace CmxRdma.Client

open CmxRdma.Agent
open CmxRdma.Lib.Slices
open CmxRdma.Lib.Transition
open CmxRdma.Memory

/-! ## Blocks and their keys -/

/-- A block of a token sequence with the hash `hash_token_ids` has for it, at the connector
of some engine. -/
structure Part (platform : Platform) where
  connector : SchedulerConnector
  tokenIds : List Int
  index : Nat
  prefixHash : PrefixHash
  hashed : ∃ prefixHashes, hashTokenIds platform tokenIds connector.blockSize = .ok prefixHashes ∧
    prefixHashes[index]? = some prefixHash

namespace Part

variable {platform : Platform}

def tokens (part : Part platform) : List Int :=
  slice part.connector.blockSize.toNat part.index part.tokenIds

/-- The key of the agent's index. -/
def key (part : Part platform) : PrefixHash :=
  compositeKey platform part.connector.modelId part.prefixHash

/-- The strings that are hashed on the way to the key. -/
def strings (part : Part platform) : List (List UInt8) :=
  (part.tokens.map int32Bytes).flatten :: hashedString part.connector.modelId part.prefixHash

/-- The hash of a block is the digest of its tokens, which are 32-bit numbers then. -/
theorem prefixHash_eq (part : Part platform) :
    (∀ token ∈ part.tokens, IsInt32 token) ∧
      part.prefixHash = platform.sha256Truncated (part.tokens.map int32Bytes).flatten := by
  obtain ⟨prefixHashes, returned, found⟩ := part.hashed
  by_cases positive : 0 < part.connector.blockSize
  · have sizeEq := Int.toNat_of_nonneg positive.le
    have atLeastOne : 1 ≤ part.connector.blockSize.toNat := by omega
    rw [← sizeEq, hashTokenIds_eq platform atLeastOne] at returned
    split_ifs at returned with inRange
    obtain rfl := Except.ok.inj returned
    simp only [List.getElem?_map, Option.map_eq_some_iff] at found
    obtain ⟨bytes, block, digest⟩ := found
    have inside := (List.getElem?_eq_some_iff.mp block).1
    rw [hashedBlocks_length, lt_sliceCount_iff atLeastOne] at inside
    rw [hashedBlocks_getElem? atLeastOne inside] at block
    obtain rfl := Option.some.inj block
    exact ⟨fun token member => inRange token (mem_of_mem_slice member), digest.symm⟩
  · -- `range` rejects a step of zero and yields nothing for a negative one
    unfold hashTokenIds at returned
    by_cases zero : part.connector.blockSize = 0
    · simp [zero] at returned
    · have negative : part.connector.blockSize < 0 := by omega
      simp only [zero, negative, if_false, if_true] at returned
      obtain rfl := Except.ok.inj returned
      simp at found

/-- Without collisions two keys are equal exactly for equal blocks under one model. -/
theorem key_eq_iff {left right : Part platform}
    (collisionFree : CollisionFree platform (left.strings ++ right.strings))
    (sameKind : left.connector.modelId = "" ↔ right.connector.modelId = "") :
    left.key = right.key ↔
      left.connector.modelId = right.connector.modelId ∧ left.tokens = right.tokens := by
  obtain ⟨leftInRange, leftDigest⟩ := left.prefixHash_eq
  obtain ⟨rightInRange, rightDigest⟩ := right.prefixHash_eq
  constructor
  · intro sameKey
    have composite : CollisionFree platform
        (hashedString left.connector.modelId left.prefixHash ++
          hashedString right.connector.modelId right.prefixHash) :=
      fun first inFirst second inSecond => collisionFree
        first (by simp only [strings, List.mem_append, List.mem_cons] at inFirst ⊢; tauto)
        second (by simp only [strings, List.mem_append, List.mem_cons] at inSecond ⊢; tauto)
    rcases (compositeKey_eq_iff composite).mp sameKey with
      ⟨sameModel, sameHash⟩ | ⟨leftRaw, rightModel, -⟩ | ⟨rightRaw, leftModel, -⟩
    · refine ⟨sameModel, flatten_int32Bytes_injective leftInRange rightInRange ?_⟩
      exact collisionFree _ (by simp [strings]) _ (by simp [strings])
        (leftDigest.symm.trans (sameHash.trans rightDigest))
    · exact absurd (sameKind.mp leftRaw) rightModel
    · exact absurd (sameKind.mpr rightRaw) leftModel
  · rintro ⟨sameModel, sameTokens⟩
    rw [key, key, sameModel, leftDigest, rightDigest, sameTokens]

end Part

/-- The blocks `update_state_after_alloc` has loaded are blocks of the request, and the Gets
for them read their keys. -/
theorem exists_part_of_mem_recorded {platform : Platform} {connector : SchedulerConnector}
    {request : Request} {blocks : AllocatedBlocks} {numExternalTokens : Int} {task : LoadTask}
    (member : task ∈ connector.recorded platform request blocks numExternalTokens) :
    ∃ part : Part platform, part.connector = connector ∧
      part.tokenIds = request.tokenIds.take numExternalTokens.toNat ∧
      (AsyncCall.get task.prefixHash connector.modelId).indexKey platform = part.key := by
  unfold SchedulerConnector.recorded at member
  by_cases nothing : numExternalTokens ≤ 0
  · rw [if_pos nothing] at member
    cases member
  · rw [if_neg nothing] at member
    cases hashed : hashTokenIds platform (request.tokenIds.take numExternalTokens.toNat)
        connector.blockSize with
    | error error =>
        simp only [hashed] at member
        cases member
    | ok prefixHashes =>
        simp only [hashed, List.mem_map] at member
        obtain ⟨⟨prefixHash, index⟩, numbered, rfl⟩ := member
        have found := List.mem_zipIdx_iff_getElem?.mp numbered
        exact ⟨⟨connector, _, index, prefixHash, prefixHashes, hashed, found⟩, rfl, rfl, rfl⟩

/-- The blocks `build_connector_meta` has saved are blocks of the finished sequence, and the
Stores for them write their keys. -/
theorem exists_part_of_mem_saveTasks {platform : Platform} {connector : SchedulerConnector}
    {tokenIds : List Int} {tasks : List SaveTask} {task : SaveTask}
    (returned : connector.saveTasks platform tokenIds = .ok tasks) (member : task ∈ tasks) :
    ∃ part : Part platform, part.connector = connector ∧ part.tokenIds = tokenIds ∧
      ∀ data, (AsyncCall.store task.prefixHash data connector.modelId).indexKey platform =
        part.key := by
  unfold SchedulerConnector.saveTasks at returned
  by_cases empty : tokenIds.isEmpty
  · rw [if_pos empty] at returned
    obtain rfl := Except.ok.inj returned
    cases member
  · rw [if_neg empty] at returned
    cases hashed : hashTokenIds platform tokenIds connector.blockSize with
    | error error =>
        simp only [hashed] at returned
        cases returned
    | ok prefixHashes =>
        simp only [hashed] at returned
        obtain rfl := Except.ok.inj returned
        obtain ⟨prefixHash, inHashes, rfl⟩ := List.mem_map.mp member
        obtain ⟨index, found⟩ := List.mem_iff_getElem?.mp inHashes
        exact ⟨⟨connector, tokenIds, index, prefixHash, prefixHashes, hashed, found⟩, rfl, rfl,
          fun _ => rfl⟩

/-! ## Engines on one agent -/

/-- One atomic step of a request some engine sent: the Store of a save, the lookups of the
scheduler, the Get of a load. Positions count the requests in flight. -/
inductive EngineStep (platform : Platform) where
  | save (part : Part platform) (data : List UInt8)
  | commit (position : Nat) (now : UInt64)
  | lookUp (part : Part platform)
  | load (part : Part platform)
  | receive (position : Nat)

namespace EngineStep

variable {platform : Platform}

/-- The step of the agent. -/
def action : EngineStep platform → Action
  | .save part data => .storeWrite part.key data
  | .commit position now => .storeInsert position now
  | .lookUp part => .lookup part.key
  | .load part => .getLookup part.key
  | .receive position => .getRead position

/-- The blocks a step is about. -/
def parts : EngineStep platform → List (Part platform)
  | .save part _ | .lookUp part | .load part => [part]
  | .commit _ _ | .receive _ => []

/-- What a step sends fits the `u32` length of a header. -/
def Short : EngineStep platform → Prop
  | .save _ data => data.length < 2 ^ 32
  | _ => True

theorem action_freesNothing {step : EngineStep platform} (short : step.Short) :
    step.action.FreesNothing := by
  cases step with
  | save part data => exact short
  | _ => trivial

theorem action_eq_storeWrite {step : EngineStep platform} {key : PrefixHash} {data : List UInt8}
    (same : step.action = .storeWrite key data) :
    ∃ part, step = .save part data ∧ part.key = key := by
  cases step with
  | save part sent =>
      obtain ⟨sameKey, rfl⟩ := Action.storeWrite.inj same
      exact ⟨part, rfl, sameKey⟩
  | _ => cases same

theorem action_eq_getLookup {step : EngineStep platform} {key : PrefixHash}
    (same : step.action = .getLookup key) : ∃ part, step = .load part ∧ part.key = key := by
  cases step with
  | load part => exact ⟨part, rfl, Action.getLookup.inj same⟩
  | _ => cases same

end EngineStep

/-- Whatever engines share an agent, and however their requests interleave: what a load is
given was saved for the same tokens under the same model. -/
theorem loads_deliver_saved_block (platform : Platform) (geometry : Geometry)
    (small : geometry.totalBlocks ≤ 2 ^ 32) (nodeId : UInt32) (capacity : Nat)
    (steps : List (EngineStep platform)) (short : ∀ step ∈ steps, step.Short)
    (collisionFree : CollisionFree platform
      ((steps.flatMap EngineStep.parts).flatMap Part.strings))
    (sameKind : ∀ left ∈ steps.flatMap EngineStep.parts,
      ∀ right ∈ steps.flatMap EngineStep.parts,
        (left.connector.modelId = "" ↔ right.connector.modelId = "")) :
    let system := run (System.step platform) (System.new geometry nodeId capacity)
      (steps.map EngineStep.action)
    ∀ delivery ∈ system.deliveries,
      (∃ loaded, .load loaded ∈ steps ∧ loaded.key = delivery.key) ∧
        ∀ loaded, .load loaded ∈ steps → loaded.key = delivery.key →
          ∃ saved, .save saved delivery.data ∈ steps ∧
            saved.connector.modelId = loaded.connector.modelId ∧ saved.tokens = loaded.tokens := by
  intro system delivery inHistory
  have attributed : system.Attributed platform geometry (steps.map EngineStep.action) := by
    apply run_attributed platform small
    intro action member
    obtain ⟨step, inSteps, rfl⟩ := List.mem_map.mp member
    exact EngineStep.action_freesNothing (short step inSteps)
  constructor
  · obtain ⟨step, inSteps, same⟩ := List.mem_map.mp (attributed.answered delivery inHistory)
    obtain ⟨loaded, rfl, sameKey⟩ := EngineStep.action_eq_getLookup same
    exact ⟨loaded, inSteps, sameKey⟩
  · intro loaded loadInSteps loadKey
    obtain ⟨write, written, writeKey, writeData, -⟩ :=
      attributed.faithful.deliveries delivery inHistory
    obtain ⟨step, saveInSteps, same⟩ := List.mem_map.mp (attributed.written write written)
    obtain ⟨saved, rfl, saveKey⟩ := EngineStep.action_eq_storeWrite same
    rw [writeData] at saveInSteps
    have savedPart : saved ∈ steps.flatMap EngineStep.parts :=
      List.mem_flatMap.mpr ⟨_, saveInSteps, List.mem_singleton_self saved⟩
    have loadedPart : loaded ∈ steps.flatMap EngineStep.parts :=
      List.mem_flatMap.mpr ⟨_, loadInSteps, List.mem_singleton_self loaded⟩
    refine ⟨saved, saveInSteps, (Part.key_eq_iff ?_ (sameKind _ savedPart _ loadedPart)).mp ?_⟩
    · have hashed : ∀ bytes ∈ saved.strings ++ loaded.strings,
          bytes ∈ (steps.flatMap EngineStep.parts).flatMap Part.strings := by
        intro bytes member
        rcases List.mem_append.mp member with ofSaved | ofLoaded
        · exact List.mem_flatMap.mpr ⟨saved, savedPart, ofSaved⟩
        · exact List.mem_flatMap.mpr ⟨loaded, loadedPart, ofLoaded⟩
      exact fun first inFirst second inSecond =>
        collisionFree first (hashed first inFirst) second (hashed second inSecond)
    · rw [saveKey, writeKey, loadKey]

/-- The second blocks of two sequences that differ in the first. -/
def Part.secondBlock : Part Platform.release where
  connector := ⟨"m", 1⟩
  tokenIds := [1, 3]
  index := 1
  prefixHash := Platform.release.sha256Truncated (int32Bytes 3)
  hashed := ⟨_, rfl, rfl⟩

def Part.otherSecondBlock : Part Platform.release where
  connector := ⟨"m", 1⟩
  tokenIds := [2, 3]
  index := 1
  prefixHash := Platform.release.sha256Truncated (int32Bytes 3)
  hashed := ⟨_, rfl, rfl⟩

/-- An engine loads what was saved for another sequence: the block is the same, the tokens
before it are not. -/
theorem loads_deliver_saved_block_of_other_prefix :
    let steps : List (EngineStep Platform.release) :=
      [.save Part.secondBlock [7], .commit 0 0, .lookUp Part.otherSecondBlock,
        .load Part.otherSecondBlock, .receive 0]
    let system := run (System.step Platform.release) (System.new Geometry.twoBlocks 0 2)
      (steps.map EngineStep.action)
    Part.secondBlock.tokenIds ≠ Part.otherSecondBlock.tokenIds ∧
      system.deliveries = [⟨Part.otherSecondBlock.key, 1, [7]⟩] ∧
      ∃ saved, .save saved [7] ∈ steps ∧ saved.connector.modelId = "m" ∧ saved.tokens = [3] := by
  intro steps system
  have shown : system.deliveries = [⟨Part.otherSecondBlock.key, 1, [7]⟩] := by decide +kernel
  have answered := (loads_deliver_saved_block Platform.release Geometry.twoBlocks (by decide) 0 2
    steps (by simp [steps, EngineStep.Short]) (by decide +kernel) (by decide)
    ⟨Part.otherSecondBlock.key, 1, [7]⟩ (by rw [shown]; exact List.mem_singleton_self _)).2
    Part.otherSecondBlock (by simp [steps]) rfl
  exact ⟨by decide, shown, answered⟩

end CmxRdma.Client
