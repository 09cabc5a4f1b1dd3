import Mathlib.Algebra.BigOperators.Group.Finset.Basic
import CmxRdma.Client.EngineLoop
import CmxRdma.Lib.Balance

/-!
Contract: where the load tasks of the vLLM connector go.

Owns: the tasks a call of `update_state_after_alloc` records, those the first loop of
`build_connector_meta` takes off the requests, also in a round that then raises, and the
books over whole runs of the engine: recorded tasks against Gets of the worker.

Does not own: what the Gets return; see `PendingLoads` for waiting on them.
-/

namespace CmxRdma.Client

open CmxRdma.Agent
open CmxRdma.Lib.Balance
open CmxRdma.Lib.Transition
open CmxRdma.Proto
open ForwardPass

/-! ## Tasks of requests -/

/-- The load tasks kept on a request. -/
def Request.tasks (request : Request) : List LoadTask := request.cmxLoadTasks.getD []

namespace SchedulerConnector

/-- The tasks `update_state_after_alloc` adds to those of a request. -/
def recorded (platform : Platform) (connector : SchedulerConnector) (request : Request)
    (blocks : AllocatedBlocks) (numExternalTokens : Int) : List LoadTask :=
  if numExternalTokens ≤ 0 then []
  else
    match hashTokenIds platform (request.tokenIds.take numExternalTokens.toNat)
        connector.blockSize with
    | .error _ => []
    | .ok prefixHashes => prefixHashes.zipIdx.map fun (prefixHash, index) =>
        connector.loadTask (extractBlockIds blocks) numExternalTokens prefixHash index

theorem tasks_updateStateAfterAlloc {platform : Platform} {connector : SchedulerConnector}
    {request updated : Request} {blocks : AllocatedBlocks} {numExternalTokens : Int}
    (returned : connector.updateStateAfterAlloc platform request blocks numExternalTokens =
      .ok updated) :
    updated.tasks =
      request.tasks ++ connector.recorded platform request blocks numExternalTokens := by
  unfold updateStateAfterAlloc at returned
  unfold recorded
  by_cases nothing : numExternalTokens ≤ 0
  · rw [if_pos nothing] at returned
    obtain rfl := Except.ok.inj returned
    rw [if_pos nothing, List.append_nil]
  · rw [if_neg nothing] at returned ⊢
    cases hashed : hashTokenIds platform (request.tokenIds.take numExternalTokens.toNat)
        connector.blockSize with
    | error error =>
        simp only [hashed] at returned
        cases returned
    | ok prefixHashes =>
        simp only [hashed] at returned
        obtain rfl := Except.ok.inj returned
        rfl

theorem recorded_of_raised {platform : Platform} {connector : SchedulerConnector}
    {request : Request} {blocks : AllocatedBlocks} {numExternalTokens : Int}
    {error : SchedulerError}
    (raised : connector.updateStateAfterAlloc platform request blocks numExternalTokens =
      .error error) :
    connector.recorded platform request blocks numExternalTokens = [] := by
  unfold updateStateAfterAlloc at raised
  unfold recorded
  by_cases nothing : numExternalTokens ≤ 0
  · rw [if_pos nothing] at raised
    cases raised
  · rw [if_neg nothing] at raised ⊢
    cases hashed : hashTokenIds platform (request.tokenIds.take numExternalTokens.toNat)
        connector.blockSize with
    | error error => rfl
    | ok prefixHashes =>
        simp only [hashed] at raised
        cases raised

/-- The requests after the tasks of one were taken off. -/
def emptied (requests : Requests) (request : Nat) : Requests :=
  Function.update requests request { requests request with cmxLoadTasks := none }

/-- The tasks the first loop of `build_connector_meta` takes off the requests, up to a
group it cannot read. -/
def detached : Requests → List SeqGroup → List LoadTask
  | _, [] => []
  | requests, group :: rest =>
      match group.first with
      | none => []
      | some request => (requests request).tasks ++ detached (emptied requests request) rest

/-- One turn of the loop; a request without the attribute is as one without tasks. -/
theorem collectLoads_cons {group : SeqGroup} {request : Nat}
    (isFirst : group.first = some request) (requests : Requests) (rest : List SeqGroup)
    (loads : List LoadTask) :
    collectLoads requests (group :: rest) loads =
      collectLoads (emptied requests request) rest (loads ++ (requests request).tasks) := by
  rw [collectLoads, isFirst]
  cases kept : (requests request).cmxLoadTasks with
  | none =>
      have unchanged : emptied requests request = requests := by
        rw [emptied, ← kept]
        exact Function.update_eq_self request requests
      simp [kept, unchanged, Request.tasks]
  | some tasks => simp [kept, emptied, Request.tasks]

/-- What the loop hands over is what it took off. -/
theorem collectLoads_eq_ok {requests : Requests} {groups : List SeqGroup}
    {loads collected : List LoadTask}
    (returned : (collectLoads requests groups loads).2 = .ok collected) :
    collected = loads ++ detached requests groups := by
  induction groups generalizing requests loads with
  | nil =>
      rw [detached, List.append_nil]
      exact (Except.ok.inj returned).symm
  | cons group rest inductionHypothesis =>
      rw [detached]
      cases isFirst : group.first with
      | none =>
          simp only [collectLoads, isFirst] at returned
          cases returned
      | some request =>
          rw [collectLoads_cons isFirst] at returned
          rw [inductionHypothesis returned, List.append_assoc]

end SchedulerConnector

/-! ## The books of a round -/

section Books

variable (kind : PrefixHash → Bool)

/-- How many of the tasks are for blocks of a kind. -/
def countTasks (tasks : List LoadTask) : Nat := tasks.countP fun task => kind task.prefixHash

theorem countTasks_append (first second : List LoadTask) :
    countTasks kind (first ++ second) = countTasks kind first + countTasks kind second :=
  List.countP_append

/-- How many are kept on the known requests. -/
def attached (known : Finset Nat) (requests : Requests) : Nat :=
  known.sum fun request => countTasks kind (requests request).tasks

variable {kind} {known : Finset Nat} {requests : Requests}

theorem attached_update {request : Nat} (member : request ∈ known) (updated : Request) :
    attached kind known (Function.update requests request updated) +
        countTasks kind (requests request).tasks =
      attached kind known requests + countTasks kind updated.tasks := by
  have others : (known.erase request).sum (fun other =>
      countTasks kind (Function.update requests request updated other).tasks) =
      (known.erase request).sum fun other => countTasks kind (requests other).tasks := by
    apply Finset.sum_congr rfl
    intro other isOther
    rw [Function.update_of_ne (Finset.ne_of_mem_erase isOther)]
  rw [attached, attached, ← Finset.add_sum_erase known _ member,
    ← Finset.add_sum_erase known (fun other => countTasks kind (requests other).tasks) member,
    others, Function.update_self]
  omega

/-- Only known requests have tasks. -/
def OnlyKnown (known : Finset Nat) (requests : Requests) : Prop :=
  ∀ request, request ∉ known → (requests request).tasks = []

theorem OnlyKnown.update (only : OnlyKnown known requests) {request : Nat} {updated : Request}
    (allowed : request ∉ known → updated.tasks = []) :
    OnlyKnown known (Function.update requests request updated) := by
  intro other unknown
  by_cases same : other = request
  · rw [same, Function.update_self]
    exact allowed (same ▸ unknown)
  · rw [Function.update_of_ne same]
    exact only other unknown

/-- Taking the tasks off one request. -/
theorem attached_emptied (only : OnlyKnown known requests) (request : Nat) :
    attached kind known (SchedulerConnector.emptied requests request) +
      countTasks kind (requests request).tasks = attached kind known requests := by
  by_cases member : request ∈ known
  · exact attached_update member _
  · have same : attached kind known (SchedulerConnector.emptied requests request) =
        attached kind known requests := by
      apply Finset.sum_congr rfl
      intro other isKnown
      rw [SchedulerConnector.emptied,
        Function.update_of_ne (ne_of_mem_of_not_mem isKnown member)]
    rw [same, only request member]
    rfl

/-- The first loop of a round moves tasks off the requests and loses none of them,
also if it raises. -/
theorem attached_collectLoads (only : OnlyKnown known requests) (groups : List SeqGroup)
    (loads : List LoadTask) :
    OnlyKnown known (SchedulerConnector.collectLoads requests groups loads).1 ∧
      attached kind known (SchedulerConnector.collectLoads requests groups loads).1 +
          countTasks kind (SchedulerConnector.detached requests groups) =
        attached kind known requests := by
  induction groups generalizing requests loads with
  | nil => exact ⟨only, rfl⟩
  | cons group rest inductionHypothesis =>
      cases isFirst : group.first with
      | none =>
          simp only [SchedulerConnector.collectLoads, SchedulerConnector.detached, isFirst]
          exact ⟨only, rfl⟩
      | some request =>
          have taken := @attached_emptied kind known requests only request
          have onlyThen : OnlyKnown known (SchedulerConnector.emptied requests request) :=
            only.update fun _ => rfl
          obtain ⟨onlyAfter, balance⟩ :=
            inductionHypothesis onlyThen (loads ++ (requests request).tasks)
          rw [SchedulerConnector.collectLoads_cons isFirst]
          apply And.intro onlyAfter
          simp only [SchedulerConnector.detached, isFirst, countTasks_append]
          omega

/-- The tasks a round takes off the requests: those it hands over if it returns. -/
theorem attached_buildConnectorMeta (platform : Platform) (connector : SchedulerConnector)
    (only : OnlyKnown known requests) (schedulerOutput : SchedulerOutput) :
    let built := connector.buildConnectorMeta platform requests schedulerOutput
    let taken := SchedulerConnector.detached requests
      (schedulerOutput.scheduledSeqGroups.getD [])
    OnlyKnown known built.1 ∧
      attached kind known built.1 + countTasks kind taken = attached kind known requests ∧
      ∀ connectorMeta, built.2 = .ok connectorMeta →
        (connectorMeta.map ConnectorMeta.loads).getD [] = taken := by
  intro built taken
  obtain ⟨onlyAfter, balance⟩ := @attached_collectLoads kind known requests only
    (schedulerOutput.scheduledSeqGroups.getD []) []
  rcases collected : SchedulerConnector.collectLoads requests
    (schedulerOutput.scheduledSeqGroups.getD []) [] with ⟨after, error | loads⟩
  · rw [collected] at onlyAfter balance
    have isBuilt : built = (after, .error error) := by
      simp only [built, SchedulerConnector.buildConnectorMeta, collected]
    rw [isBuilt]
    exact ⟨onlyAfter, balance, fun connectorMeta returned => by cases returned⟩
  · have handed : loads = taken := by
      have returned : (SchedulerConnector.collectLoads requests
        (schedulerOutput.scheduledSeqGroups.getD []) []).2 = .ok loads := by rw [collected]
      exact SchedulerConnector.collectLoads_eq_ok returned
    rw [collected] at onlyAfter balance
    have isBuilt : built = (after, (connector.collectSaves platform after []
        (schedulerOutput.finishedSeqGroups.getD [])).map fun saves =>
          if loads.isEmpty && saves.isEmpty then none else some ⟨loads, saves⟩) := by
      simp only [built, SchedulerConnector.buildConnectorMeta, collected]
    rw [isBuilt]
    refine ⟨onlyAfter, balance, ?_⟩
    intro connectorMeta returned
    cases saved : connector.collectSaves platform after []
        (schedulerOutput.finishedSeqGroups.getD []) with
    | error error =>
        simp only [saved, Except.map] at returned
        cases returned
    | ok saves =>
        simp only [saved, Except.map] at returned
        obtain rfl := Except.ok.inj returned
        rw [← handed]
        split
        · rename_i empty
          simp only [Bool.and_eq_true, List.isEmpty_iff] at empty
          rw [empty.1]
          rfl
        · rfl

end Books

/-! ## Whole runs -/

/-- The call is a Get of a block of the kind. -/
def AsyncCall.gets (kind : PrefixHash → Bool) : AsyncCall → Bool
  | .get prefixHash _ => kind prefixHash
  | .store _ _ _ => false

/-- The request an event allocates for. -/
def EngineEvent.allocated : EngineEvent → Option Nat
  | .allocate request _ _ => some request
  | _ => none

namespace Engine

section Flow

variable (platform : Platform) (connector : SchedulerConnector) (kind : PrefixHash → Bool)

/-- How many tasks of the kind an event records. -/
def recordedBy (engine : Engine) : EngineEvent → Nat
  | .allocate request blocks numExternalTokens =>
      countTasks kind
        (connector.recorded platform (engine.requests request) blocks numExternalTokens)
  | _ => 0

/-- How many an event takes off the requests and hands to nobody: those of a round that
raises. -/
def droppedBy (engine : Engine) : EngineEvent → Nat
  | .round schedulerOutput _ =>
      match (connector.buildConnectorMeta platform engine.requests schedulerOutput).2 with
      | .error _ => countTasks kind (SchedulerConnector.detached engine.requests
          (schedulerOutput.scheduledSeqGroups.getD []))
      | .ok _ => 0
  | _ => 0

end Flow

section Law

variable {platform : Platform} {connector : SchedulerConnector} {kind : PrefixHash → Bool}

/-- A pass issues one Get for each load task it is handed. -/
theorem countP_forward (engine : Engine) (connectorMeta : Option ConnectorMeta)
    (layerCalls : List LayerCall) :
    (engine.forward ⟨.object connectorMeta, layerCalls⟩).issued.countP (AsyncCall.gets kind) =
      engine.issued.countP (AsyncCall.gets kind) +
        countTasks kind ((connectorMeta.map ConnectorMeta.loads).getD []) := by
  have loaded : (engine.worker.startLoadKv (.object connectorMeta)).2.countP
      (AsyncCall.gets kind) = countTasks kind ((connectorMeta.map ConnectorMeta.loads).getD []) := by
    rw [CmxRdmaConnector.startLoadKv, getMeta]
    cases connectorMeta with
    | none => rfl
    | some handed =>
        by_cases empty : handed.loads = []
        · simp [empty, countTasks]
        · simp [empty, countTasks, List.countP_map, AsyncCall.gets, Function.comp_def]
  obtain ⟨-, issued⟩ := CmxRdmaConnector.run_layers
    (engine.worker.startLoadKv (.object connectorMeta)).1 layerCalls
  have noGets : ((outputs CmxRdmaConnector.step
      (engine.worker.startLoadKv (.object connectorMeta)).1
        (layerCalls.map .layer)).flatten).countP (AsyncCall.gets kind) = 0 := by
    rw [issued, List.countP_eq_zero]
    intro call member
    have isStore := isStore_of_mem_storesOf member
    cases call with
    | get prefixHash modelId => cases isStore
    | store prefixHash data modelId => exact Bool.false_ne_true
  simp only [forward, calls, outputs, outputs_append, List.flatten_cons, List.flatten_append]
  simp only [next, CmxRdmaConnector.step, List.countP_append, loaded, noGets, List.flatten_nil,
    List.countP_nil, Nat.add_zero]

/-- Tasks on requests and Gets of the kind. -/
def accountedFor (kind : PrefixHash → Bool) (known : Finset Nat) (engine : Engine) : Nat :=
  attached kind known engine.requests + engine.issued.countP (AsyncCall.gets kind)

/-- One event: what it records is attached, and what it takes off is fetched or dropped. -/
theorem accountedFor_step {known : Finset Nat} {engine : Engine}
    (only : OnlyKnown known engine.requests) {event : EngineEvent}
    (named : ∀ request ∈ event.allocated, request ∈ known) :
    OnlyKnown known (engine.step platform connector event).requests ∧
      accountedFor kind known (engine.step platform connector event) +
          engine.droppedBy platform connector kind event =
        accountedFor kind known engine + engine.recordedBy platform connector kind event := by
  cases event with
  | describe request attributes =>
      have same : ∀ other, ((engine.step platform connector
          (.describe request attributes)).requests other).tasks = (engine.requests other).tasks := by
        intro other
        simp only [Engine.step]
        by_cases isThis : other = request
        · rw [isThis, Function.update_self]
          rfl
        · rw [Function.update_of_ne isThis]
      apply And.intro fun other unknown => (same other).trans (only other unknown)
      simp only [accountedFor, attached, same]
      rfl
  | lookUp request numComputedTokens =>
      simp only [Engine.step]
      split <;> exact ⟨only, rfl⟩
  | allocate request blocks numExternalTokens =>
      have member : request ∈ known := named request rfl
      cases returned : connector.updateStateAfterAlloc platform (engine.requests request) blocks
          numExternalTokens with
      | error error =>
          simp only [Engine.step, returned, recordedBy, droppedBy,
            SchedulerConnector.recorded_of_raised returned]
          exact ⟨only, rfl⟩
      | ok updated =>
          have books := @attached_update kind known engine.requests request member updated
          rw [SchedulerConnector.tasks_updateStateAfterAlloc returned, countTasks_append] at books
          simp only [Engine.step, returned]
          apply And.intro (only.update fun unknown => absurd member unknown)
          simp only [accountedFor, recordedBy, droppedBy]
          omega
  | round schedulerOutput layerCalls =>
      obtain ⟨onlyAfter, books, handed⟩ := @attached_buildConnectorMeta kind known
        engine.requests platform connector only schedulerOutput
      rcases built : connector.buildConnectorMeta platform engine.requests schedulerOutput with
        ⟨requests, error | connectorMeta⟩
      · simp only [built] at onlyAfter books
        simp only [Engine.step, built, accountedFor, recordedBy, droppedBy]
        apply And.intro onlyAfter
        omega
      · simp only [built] at onlyAfter books
        have fetched := @countP_forward kind { engine with requests := requests } connectorMeta
          layerCalls
        rw [handed connectorMeta (by rw [built])] at fetched
        simp only [Engine.step, built]
        apply And.intro onlyAfter
        simp only [accountedFor, recordedBy, droppedBy, built, fetched]
        show attached kind known requests + _ + 0 = _
        omega
  | agent event => exact ⟨only, rfl⟩

end Law

/-- Every load task is fetched once. At any time of any run of the engine, the tasks that
`update_state_after_alloc` recorded for blocks of any kind are exactly as many as those
still attached to requests, the Gets the worker has issued for such blocks and those lost
in rounds that raised after taking them off; only requests with an allocation have any. -/
theorem loads_fetched_once (platform : Platform) (connector : SchedulerConnector)
    (kind : PrefixHash → Bool) (requests : Requests) (service : CacheService)
    (events : List EngineEvent)
    (noTasks : ∀ request, (requests request).cmxLoadTasks = none) :
    let engine := start connector requests service
    let final := run (step platform connector) engine events
    let known := (events.filterMap EngineEvent.allocated).toFinset
    attached kind known final.requests + final.issued.countP (AsyncCall.gets kind) +
        tally (step platform connector) (droppedBy platform connector kind) engine events =
      tally (step platform connector) (recordedBy platform connector kind) engine events ∧
    ∀ request, request ∉ known → (final.requests request).tasks = [] := by
  intro engine final known
  have named : ∀ event ∈ events, ∀ request ∈ event.allocated, request ∈ known := by
    intro event member request isAllocated
    exact List.mem_toFinset.mpr (List.mem_filterMap.mpr ⟨event, member, isAllocated⟩)
  have noneAt : ∀ request, (engine.requests request).tasks = [] := by
    intro request
    show (requests request).tasks = []
    rw [Request.tasks, noTasks]
    rfl
  have only : OnlyKnown known engine.requests := fun request _ => noneAt request
  have keeps : ∀ state : Engine, ∀ event ∈ events, OnlyKnown known state.requests →
      OnlyKnown known (state.step platform connector event).requests :=
    fun state event member only =>
      (@accountedFor_step platform connector kind known state only event (named event member)).1
  have books := @balance_run_of_mem _ _ (step platform connector)
    (recordedBy platform connector kind) (droppedBy platform connector kind)
    (fun state => OnlyKnown known state.requests) (accountedFor kind known) events keeps
    (fun state event member only => (accountedFor_step only (named event member)).2) engine only
  have nothing : accountedFor kind known engine = 0 := by
    simp only [accountedFor, attached, noneAt]
    simp [countTasks, engine, start]
  apply And.intro
  · rw [nothing, Nat.zero_add] at books
    exact books
  · exact @run_invariant_of_mem _ _ (step platform connector)
      (fun state => OnlyKnown known state.requests) events keeps engine only

/-- Three requests of one block each: the first is scheduled in a round that raises for a
finished group without sequences, the second in one that does not, the third in none. -/
def threeLoads : List EngineEvent :=
  [.describe 0 ⟨some [1, 2], none, none, none⟩, .describe 1 ⟨some [3, 4], none, none, none⟩,
    .describe 2 ⟨some [5, 6], none, none, none⟩, .allocate 0 (.list [7]) 2,
    .round ⟨some [.single 0], some [.seqs []]⟩ [], .allocate 1 (.list [8]) 2,
    .allocate 2 (.list [9]) 2, .round ⟨some [.single 0, .seqs [1]], none⟩ []]

/-- One task is attached, one fetched and one lost. -/
theorem loads_fetched_once_of_three :
    let connector : SchedulerConnector := ⟨"", 2⟩
    let every : PrefixHash → Bool := fun _ => true
    let engine := start connector (fun _ => ⟨none, none, none, none⟩)
      (.ofMain Memory.Geometry.twoBlocks "node" false)
    let final := run (step Platform.release connector) engine threeLoads
    attached every {0, 1, 2} final.requests = 1 ∧
      final.issued.countP (AsyncCall.gets every) = 1 ∧
      tally (step Platform.release connector) (recordedBy Platform.release connector every) engine
        threeLoads = 3 := by
  intro connector every engine final
  have books := (loads_fetched_once Platform.release connector every
    (fun _ => ⟨none, none, none, none⟩) (.ofMain Memory.Geometry.twoBlocks "node" false)
    threeLoads fun _ => rfl).1
  have onRequests : attached every {0, 1, 2} final.requests = 1 := by decide +kernel
  have fetched : final.issued.countP (AsyncCall.gets every) = 1 := by decide +kernel
  have lost : tally (step Platform.release connector)
    (droppedBy Platform.release connector every) engine threeLoads = 1 := by decide +kernel
  have known : (threeLoads.filterMap EngineEvent.allocated).toFinset = {0, 1, 2} := by decide
  rw [known, onRequests, fetched, lost] at books
  exact ⟨onRequests, fetched, books.symm⟩

end Engine

end CmxRdma.Client
