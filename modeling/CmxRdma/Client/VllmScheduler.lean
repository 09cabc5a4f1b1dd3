import Mathlib.Logic.Function.Basic
import CmxRdma.Client.AsyncClient
import CmxRdma.Client.VllmConnector

/-!
Contract: the scheduler side of `cmx_vllm/connector.py`.

Owns: `get_num_new_matched_tokens` over a client's `batch_lookup`,
`update_state_after_alloc` and `build_connector_meta` with the task lists they keep
on the request objects, and how much of a saved sequence is found again.

Does not own: the worker side; the event loop and its timeouts; objects without the
attributes the code reads unconditionally. Requests are named by their identity, as
the task list of one is an attribute that is set and deleted in place.
-/

namespace CmxRdma.Client

open CmxRdma.Agent
open CmxRdma.Lib.Slices
open CmxRdma.Memory
open CmxRdma.Proto

/-! ## Model -/

/-- A request object by the attributes that are tested on it. -/
structure Request where
  promptTokenIds : Option (List Int)
  getTokenIds : Option (List Int)
  dataPromptTokenIds : Option (List Int)
  cmxLoadTasks : Option (List LoadTask)
deriving DecidableEq

/-- `_get_token_ids`. -/
def Request.tokenIds (request : Request) : List Int :=
  (request.promptTokenIds.or (request.getTokenIds.or request.dataPromptTokenIds)).getD []

/-- What vLLM allocated: a list, an object with the attribute `block_ids`, or
something else. -/
inductive AllocatedBlocks where
  | list (blockIds : List Nat)
  | object (blockIds : List Nat)
  | other

/-- `_extract_block_ids`. -/
def extractBlockIds : AllocatedBlocks → List Nat
  | .list blockIds => blockIds
  | .object blockIds => blockIds
  | .other => []

/-- A sequence group: an object with `get_seqs`, or the request itself. -/
inductive SeqGroup where
  | seqs (members : List Nat)
  | single (request : Nat)

/-- The request a group stands for; `get_seqs()[0]` fails on an empty group. -/
def SeqGroup.first : SeqGroup → Option Nat
  | .seqs members => members.head?
  | .single request => some request

structure SchedulerOutput where
  scheduledSeqGroups : Option (List SeqGroup)
  finishedSeqGroups : Option (List SeqGroup)

/-- What the scheduler methods can raise. -/
inductive SchedulerError where
  | hashing (error : PyError)
  | indexError
  | rpc (failure : Failure)
deriving DecidableEq

/-- The request objects by identity. -/
abbrev Requests := Nat → Request

/-- `items[start:]`; a negative start counts from the end. -/
def sliceFrom (start : Int) (items : List Int) : List Int :=
  if start < 0 then items.drop (items.length + start).toNat else items.drop start.toNat

/-- The loop that counts hits until the first miss. -/
def matchedBlocks : List Bool → Nat
  | [] => 0
  | hit :: rest => if hit then matchedBlocks rest + 1 else 0

/-- The part of the connector the scheduler methods read. -/
structure SchedulerConnector where
  modelId : String
  blockSize : Int

namespace SchedulerConnector

variable (platform : Platform) (connector : SchedulerConnector)

/-- `get_num_new_matched_tokens` over any `batch_lookup`. -/
def getNumNewMatchedTokens {Service : Type}
    (batchLookup : Service → List PrefixHash → String → Service × Except Failure (List Bool))
    (service : Service) (request : Request) (numComputedTokens : Int) :
    Service × Except SchedulerError Int :=
  if request.tokenIds.isEmpty then (service, .ok 0)
  else if (sliceFrom numComputedTokens request.tokenIds).isEmpty then (service, .ok 0)
  else
    match hashTokenIds platform (sliceFrom numComputedTokens request.tokenIds)
        connector.blockSize with
    | .error error => (service, .error (.hashing error))
    | .ok prefixHashes =>
        if prefixHashes.isEmpty then (service, .ok 0)
        else
          (batchLookup service prefixHashes connector.modelId).map id fun
            | .error failure => .error (.rpc failure)
            | .ok found => .ok (matchedBlocks found * connector.blockSize)

/-- The task `update_state_after_alloc` records for the block of an index. -/
def loadTask (blockIds : List Nat) (numExternalTokens : Int) (prefixHash : PrefixHash)
    (index : Nat) : LoadTask where
  prefixHash := prefixHash
  blockIds := slice connector.blockSize.toNat index blockIds
  numTokens := (min connector.blockSize (numExternalTokens - index * connector.blockSize)).toNat

def updateStateAfterAlloc (request : Request) (blocks : AllocatedBlocks)
    (numExternalTokens : Int) : Except SchedulerError Request :=
  if numExternalTokens ≤ 0 then .ok request
  else
    match hashTokenIds platform (request.tokenIds.take numExternalTokens.toNat)
        connector.blockSize with
    | .error error => .error (.hashing error)
    | .ok prefixHashes =>
        .ok { request with
          cmxLoadTasks := some (request.cmxLoadTasks.getD [] ++
            prefixHashes.zipIdx.map fun (prefixHash, index) =>
              connector.loadTask (extractBlockIds blocks) numExternalTokens prefixHash index) }

/-- The first loop of `build_connector_meta`: the tasks kept on a request are handed
over and the attribute is deleted. -/
def collectLoads : Requests → List SeqGroup → List LoadTask →
    Requests × Except SchedulerError (List LoadTask)
  | requests, [], loads => (requests, .ok loads)
  | requests, group :: rest, loads =>
      match group.first with
      | none => (requests, .error .indexError)
      | some request =>
          match (requests request).cmxLoadTasks with
          | none => collectLoads requests rest loads
          | some tasks =>
              collectLoads
                (Function.update requests request { requests request with cmxLoadTasks := none })
                rest (loads ++ tasks)

/-- The save tasks of one finished sequence. -/
def saveTasks (tokenIds : List Int) : Except SchedulerError (List SaveTask) :=
  if tokenIds.isEmpty then .ok []
  else
    match hashTokenIds platform tokenIds connector.blockSize with
    | .error error => .error (.hashing error)
    | .ok prefixHashes =>
        .ok (prefixHashes.map fun prefixHash => ⟨prefixHash, [], connector.blockSize.toNat⟩)

/-- The second loop of `build_connector_meta`. -/
def collectSaves (requests : Requests) (saves : List SaveTask) :
    List SeqGroup → Except SchedulerError (List SaveTask)
  | [] => .ok saves
  | group :: rest =>
      match group.first with
      | none => .error .indexError
      | some request =>
          match connector.saveTasks platform (requests request).tokenIds with
          | .error error => .error error
          | .ok tasks => collectSaves requests (saves ++ tasks) rest

def buildConnectorMeta (requests : Requests) (schedulerOutput : SchedulerOutput) :
    Requests × Except SchedulerError (Option ConnectorMeta) :=
  match collectLoads requests (schedulerOutput.scheduledSeqGroups.getD []) [] with
  | (requests, .error error) => (requests, .error error)
  | (requests, .ok loads) =>
      (requests,
        (connector.collectSaves platform requests []
            (schedulerOutput.finishedSeqGroups.getD [])).map fun saves =>
          if loads.isEmpty && saves.isEmpty then none else some ⟨loads, saves⟩)

end SchedulerConnector

/-! ## What a finished sequence has saved -/

namespace SchedulerConnector

variable {platform : Platform} {connector : SchedulerConnector}

/-- Handing over the load tasks keeps the tokens of every request. -/
theorem tokenIds_collectLoads (requests : Requests) (groups : List SeqGroup)
    (loads : List LoadTask) (request : Nat) :
    ((collectLoads requests groups loads).1 request).tokenIds = (requests request).tokenIds := by
  induction groups generalizing requests loads with
  | nil => rfl
  | cons group rest inductionHypothesis =>
      rw [collectLoads]
      cases group.first with
      | none => rfl
      | some scheduled =>
          cases kept : (requests scheduled).cmxLoadTasks with
          | none => simp only [kept, inductionHypothesis]
          | some tasks =>
              simp only [kept, inductionHypothesis]
              by_cases same : request = scheduled
              · subst same
                rw [Function.update_self]
                rfl
              · rw [Function.update_of_ne same]

/-- The second loop keeps what it has and adds the tasks of every group. -/
theorem collectSaves_eq_ok {requests : Requests} {groups : List SeqGroup}
    {saves collected : List SaveTask}
    (finished : connector.collectSaves platform requests saves groups = .ok collected) :
    saves ⊆ collected ∧ ∀ group ∈ groups, ∀ request, group.first = some request →
      ∃ tasks, connector.saveTasks platform (requests request).tokenIds = .ok tasks ∧
        tasks ⊆ collected := by
  induction groups generalizing saves with
  | nil =>
      rw [collectSaves, Except.ok.injEq] at finished
      exact ⟨fun task member => finished ▸ member, by simp⟩
  | cons group rest inductionHypothesis =>
      rw [collectSaves] at finished
      cases isFirst : group.first with
      | none => simp [isFirst] at finished
      | some request =>
          cases made : connector.saveTasks platform (requests request).tokenIds with
          | error error => simp [isFirst, made] at finished
          | ok tasks =>
              simp only [isFirst, made] at finished
              obtain ⟨kept, later⟩ := inductionHypothesis finished
              obtain ⟨keptSaves, keptTasks⟩ := List.append_subset.mp kept
              refine ⟨keptSaves, List.forall_mem_cons.mpr ⟨?_, later⟩⟩
              intro other isOther
              obtain rfl : request = other := Option.some.inj (isFirst.symm.trans isOther)
              exact ⟨tasks, made, keptTasks⟩

/-- Metadata that was built holds the save tasks of every finished sequence. -/
theorem saveTasks_of_built {requests : Requests} {schedulerOutput : SchedulerOutput}
    {connectorMeta : Option ConnectorMeta} {group : SeqGroup} {request : Nat}
    (built : (connector.buildConnectorMeta platform requests schedulerOutput).2 =
      .ok connectorMeta)
    (finished : group ∈ schedulerOutput.finishedSeqGroups.getD [])
    (isFirst : group.first = some request) :
    ∃ tasks, connector.saveTasks platform (requests request).tokenIds = .ok tasks ∧
      ∀ task ∈ tasks, ∃ handed ∈ connectorMeta, task ∈ handed.saves := by
  have sameTokens := tokenIds_collectLoads requests
    (schedulerOutput.scheduledSeqGroups.getD []) [] request
  rw [buildConnectorMeta] at built
  rcases collected : collectLoads requests (schedulerOutput.scheduledSeqGroups.getD []) [] with
    ⟨after, _ | loads⟩
  · simp [collected] at built
  · rw [collected] at built sameTokens
    cases saved : connector.collectSaves platform after []
        (schedulerOutput.finishedSeqGroups.getD []) with
    | error error => simp [saved, Except.map] at built
    | ok saves =>
        simp only [saved, Except.map, Except.ok.injEq] at built
        obtain ⟨tasks, made, kept⟩ := (collectSaves_eq_ok saved).2 group finished request isFirst
        refine ⟨tasks, sameTokens ▸ made, fun task member => ?_⟩
        have nonempty : saves.isEmpty = false := by
          simpa using List.ne_nil_of_mem (kept member)
        rw [nonempty, Bool.and_false, if_neg Bool.false_ne_true] at built
        exact ⟨⟨loads, saves⟩, built.symm, kept member⟩

/-- A sequence has save tasks only if its tokens fit into 32 bits; there is one for
each of its blocks. -/
theorem saveTasks_eq_ok {blockSize : Nat} {tokenIds : List Int} {tasks : List SaveTask}
    (positive : 1 ≤ blockSize) (sized : connector.blockSize = blockSize)
    (made : connector.saveTasks platform tokenIds = .ok tasks) :
    (∀ token ∈ tokenIds, IsInt32 token) ∧
      tasks.map SaveTask.prefixHash =
        (hashedBlocks tokenIds blockSize).map platform.sha256Truncated := by
  rw [saveTasks, sized] at made
  cases tokenIds with
  | nil =>
      rw [List.isEmpty_nil, if_pos rfl, Except.ok.injEq] at made
      subst made
      exact ⟨by simp, by rw [(hashedBlocks_eq_nil_iff positive []).mpr rfl]; rfl⟩
  | cons token rest =>
      rw [List.isEmpty_cons, if_neg Bool.false_ne_true] at made
      rw [hashTokenIds_eq platform positive] at made
      by_cases inRange : ∀ other ∈ token :: rest, IsInt32 other
      · rw [if_pos inRange] at made
        refine ⟨inRange, ?_⟩
        rw [← Except.ok.inj made, List.map_map, Function.comp_def, List.map_id']
      · rw [if_neg inRange] at made
        cases made

/-! ## What is found again -/

/-- A run of hits at the start is counted. -/
theorem le_matchedBlocks {found : List Bool} {count : Nat}
    (hits : ∀ index < count, found[index]? = some true) : count ≤ matchedBlocks found := by
  induction found generalizing count with
  | nil =>
      cases count with
      | zero => exact Nat.zero_le _
      | succ count => simpa using hits 0 (Nat.succ_pos count)
  | cons hit rest inductionHypothesis =>
      cases count with
      | zero => exact Nat.zero_le _
      | succ count =>
          obtain rfl : hit = true := by simpa using hits 0 (Nat.succ_pos count)
          rw [matchedBlocks, if_pos rfl]
          refine Nat.succ_le_succ (inductionHypothesis fun index inside => ?_)
          simpa using hits (index + 1) (Nat.succ_lt_succ inside)

/-- The scheduler counts the leading hits among the blocks behind the computed tokens,
or fails on a token there outside 32 bits. -/
theorem getNumNewMatchedTokens_of_answer {Service : Type}
    {batchLookup : Service → List PrefixHash → String → Service × Except Failure (List Bool)}
    {service : Service} {blockSize computed : Nat} {request : Request} {found : List Bool}
    (positive : 1 ≤ blockSize) (sized : connector.blockSize = blockSize)
    (answers : (batchLookup service ((hashedBlocks (request.tokenIds.drop computed) blockSize).map
      platform.sha256Truncated) connector.modelId).2 = .ok found)
    (flagged : found.length = (hashedBlocks (request.tokenIds.drop computed) blockSize).length) :
    (connector.getNumNewMatchedTokens platform batchLookup service request computed).2 =
      if ∀ token ∈ request.tokenIds.drop computed, IsInt32 token then
        .ok (matchedBlocks found * blockSize)
      else .error (.hashing .structError) := by
  have sliced : sliceFrom computed request.tokenIds = request.tokenIds.drop computed := by
    rw [sliceFrom, if_neg (by omega), Int.toNat_natCast]
  rw [getNumNewMatchedTokens, sized, sliced]
  cases behind : request.tokenIds.drop computed with
  | nil =>
      rw [behind, (hashedBlocks_eq_nil_iff positive []).mpr rfl] at flagged
      obtain rfl : found = [] := List.length_eq_zero_iff.mp flagged
      simp [matchedBlocks]
  | cons token rest =>
      rw [behind] at answers
      have nonempty : request.tokenIds.isEmpty = false := by
        cases tokens : request.tokenIds with
        | nil => simp [tokens] at behind
        | cons first others => rfl
      rw [nonempty, List.isEmpty_cons, if_neg Bool.false_ne_true, if_neg Bool.false_ne_true]
      rw [hashTokenIds_eq platform positive]
      by_cases inRange : ∀ other ∈ token :: rest, IsInt32 other
      · have hashed : ((hashedBlocks (token :: rest) blockSize).map
            platform.sha256Truncated).isEmpty = false := by
          simp [hashedBlocks_eq_nil_iff positive]
        rw [if_pos inRange, if_pos inRange]
        simp only [hashed, Bool.false_eq_true, if_false, Prod.map_snd, answers]
      · rw [if_neg inRange, if_neg inRange]

/-- From the start of a request, the scheduler counts the leading blocks the local
index holds, or fails on a token outside 32 bits. -/
theorem getNumNewMatchedTokens_zero {blockSize : Nat} (positive : 1 ≤ blockSize)
    (sized : connector.blockSize = blockSize) (service : CacheService) (request : Request) :
    (connector.getNumNewMatchedTokens platform (AsyncCmxClient.batchLookup platform) service
        request 0).2 =
      if ∀ token ∈ request.tokenIds, IsInt32 token then
        .ok (matchedBlocks ((hashedBlocks request.tokenIds blockSize).map fun block =>
          (service.index.map.lookup (compositeKey platform connector.modelId
            (platform.sha256Truncated block))).isSome) * blockSize)
      else .error (.hashing .structError) := by
  refine @getNumNewMatchedTokens_of_answer platform connector CacheService _ service blockSize 0
    request _ positive sized ?_ ?_
  · rw [AsyncCmxClient.batchLookup_snd, List.map_map]
    rfl
  · rw [List.length_map, List.drop_zero]

/-- Where the blocks of a saved sequence are in the local index, so are the blocks a
request shares with it. -/
theorem le_matchedBlocks_of_saved {blockSize count : Nat} {saved asked : List Int}
    {tasks : List SaveTask} {service : CacheService} (positive : 1 ≤ blockSize)
    (hashed : tasks.map SaveTask.prefixHash =
      (hashedBlocks saved blockSize).map platform.sha256Truncated)
    (stored : ∀ task ∈ tasks,
      compositeKey platform connector.modelId task.prefixHash ∈ service.index.map)
    (inSaved : count ≤ saved.length) (inAsked : count ≤ asked.length)
    (shared : saved.take count = asked.take count) :
    count / blockSize ≤ matchedBlocks ((hashedBlocks asked blockSize).map fun block =>
      (service.index.map.lookup (compositeKey platform connector.modelId
        (platform.sha256Truncated block))).isSome) := by
  refine le_matchedBlocks fun index inside => ?_
  have covered : (index + 1) * blockSize ≤ count :=
    (Nat.mul_le_mul_right blockSize inside).trans (Nat.div_mul_le_self count blockSize)
  have begins : index * blockSize < count := by
    rw [Nat.succ_mul] at covered
    omega
  have savedBlock := hashedBlocks_getElem? positive (begins.trans_le inSaved)
  have askedBlock := hashedBlocks_getElem? positive (begins.trans_le inAsked)
  rw [← slice_eq_of_take_eq shared covered] at askedBlock
  have isHash := List.mem_map_of_mem (f := platform.sha256Truncated)
    (List.mem_of_getElem? savedBlock)
  rw [← hashed] at isHash
  obtain ⟨task, isTask, sameHash⟩ := List.mem_map.mp isHash
  have present := stored task isTask
  rw [sameHash, ← AList.lookup_isSome] at present
  rw [List.getElem?_map, askedBlock, Option.map_some, present]

/-- The scheduler finds a saved prefix again: where the save tasks of a finished
sequence are in the local index, a request that shares its first `count` tokens gets
all full blocks of these counted. The only failure is that of packing a token
outside 32 bits. -/
theorem saved_prefix_found {blockSize count : Nat} (positive : 1 ≤ blockSize)
    (sized : connector.blockSize = blockSize) {requests : Requests}
    {schedulerOutput : SchedulerOutput} {connectorMeta : Option ConnectorMeta}
    {group : SeqGroup} {saved : Nat} {asked : Request} {service : CacheService}
    (built : (connector.buildConnectorMeta platform requests schedulerOutput).2 =
      .ok connectorMeta)
    (finished : group ∈ schedulerOutput.finishedSeqGroups.getD [])
    (isSaved : group.first = some saved)
    (stored : ∀ tasks, connector.saveTasks platform (requests saved).tokenIds = .ok tasks →
      ∀ task ∈ tasks, compositeKey platform connector.modelId task.prefixHash ∈ service.index.map)
    (inSaved : count ≤ (requests saved).tokenIds.length)
    (inAsked : count ≤ asked.tokenIds.length)
    (shared : (requests saved).tokenIds.take count = asked.tokenIds.take count) :
    let outcome := (connector.getNumNewMatchedTokens platform
      (AsyncCmxClient.batchLookup platform) service asked 0).2
    ((∀ token ∈ asked.tokenIds, IsInt32 token) → ∃ matched, outcome = .ok matched ∧
        ((blockSize * (count / blockSize) : Nat) : Int) ≤ matched) ∧
      ((∃ token ∈ asked.tokenIds, ¬ IsInt32 token) →
        outcome = .error (.hashing .structError)) := by
  intro outcome
  have counted := @getNumNewMatchedTokens_zero platform _ _ positive sized service asked
  obtain ⟨tasks, made, -⟩ := saveTasks_of_built built finished isSaved
  obtain ⟨-, hashed⟩ := saveTasks_eq_ok positive sized made
  have leading := le_matchedBlocks_of_saved positive hashed (stored tasks made) inSaved inAsked
    shared
  constructor
  · intro inRange
    rw [if_pos inRange] at counted
    refine ⟨_, counted, ?_⟩
    rw [mul_comm, Nat.cast_mul]
    exact Int.mul_le_mul_of_nonneg_right (Int.ofNat_le.mpr leading) (Int.natCast_nonneg _)
  · rintro ⟨token, member, outside⟩
    rwa [if_neg fun inRange => outside (inRange token member)] at counted

/-- A request that has nothing but prompt tokens. -/
def prompt (tokenIds : List Int) : Request := ⟨some tokenIds, none, none, none⟩

/-- An agent that was sent the one save task of the sequence `[1]`. -/
def savedOne : CacheService :=
  (AsyncCmxClient.store .release (CacheService.new Geometry.twoBlocks 2 "a" false none) 0
    (Platform.release.sha256Truncated (int32Bytes 1)) [7] "").1

private theorem saveTasks_one :
    saveTasks .release ⟨"", 1⟩ [1] =
      .ok [⟨Platform.release.sha256Truncated (int32Bytes 1), [], 1⟩] := by
  decide +kernel

private theorem mem_savedOne :
    compositeKey .release "" (Platform.release.sha256Truncated (int32Bytes 1)) ∈
      savedOne.index.map := by
  decide +kernel

/-- A sequence of one token is found again in a request of two. -/
theorem saved_prefix_found_one_block :
    let connector : SchedulerConnector := ⟨"", 1⟩
    let outcome := (connector.getNumNewMatchedTokens .release
      (AsyncCmxClient.batchLookup .release) savedOne (prompt [1, 2]) 0).2
    ∃ matched, outcome = .ok matched ∧ 1 ≤ matched := by
  intro connector outcome
  let task : SaveTask := ⟨Platform.release.sha256Truncated (int32Bytes 1), [], 1⟩
  have built : (connector.buildConnectorMeta .release (fun _ => prompt [1])
      ⟨none, some [.single 0]⟩).2 = .ok (some ⟨[], [task]⟩) := by
    simp only [buildConnectorMeta, collectLoads, collectSaves, Option.getD_none, Option.getD_some,
      SeqGroup.first]
    rw [show (prompt [1]).tokenIds = [1] from rfl, saveTasks_one]
    rfl
  have stored : ∀ tasks, connector.saveTasks .release [1] = .ok tasks → ∀ task ∈ tasks,
      compositeKey .release "" task.prefixHash ∈ savedOne.index.map := by
    intro tasks made
    obtain rfl : [task] = tasks := Except.ok.inj (saveTasks_one.symm.trans made)
    exact List.forall_mem_singleton.mpr mem_savedOne
  have inSaved : 1 ≤ (prompt [1]).tokenIds.length := by decide
  have inAsked : 1 ≤ (prompt [1, 2]).tokenIds.length := by decide
  exact (saved_prefix_found (by decide) rfl built (List.mem_singleton.mpr rfl) rfl stored
    inSaved inAsked rfl).1 (by decide)

/-- The agent that was sent the block, asked about a sequence that goes on with a token
outside 32 bits: the save task is in the index, and the scheduler raises. -/
theorem saved_prefix_raises :
    let connector : SchedulerConnector := ⟨"", 1⟩
    connector.saveTasks .release [1] =
        .ok [⟨Platform.release.sha256Truncated (int32Bytes 1), [], 1⟩] ∧
      compositeKey .release "" (Platform.release.sha256Truncated (int32Bytes 1)) ∈
        savedOne.index.map ∧
      (connector.getNumNewMatchedTokens .release (AsyncCmxClient.batchLookup .release) savedOne
        (prompt [1, 2 ^ 31]) 0).2 = .error (.hashing .structError) := by
  refine ⟨saveTasks_one, mem_savedOne, ?_⟩
  rw [getNumNewMatchedTokens_zero le_rfl rfl]
  exact if_neg (by decide)

end SchedulerConnector

end CmxRdma.Client
