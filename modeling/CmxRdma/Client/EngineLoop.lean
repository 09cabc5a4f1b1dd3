import CmxRdma.Agent.DeleteByHash
import CmxRdma.Agent.MakeRoom
import CmxRdma.Client.VllmScheduler

/-!
Contract: both sides of the vLLM connector in the engine's loop, with their agent.

Owns: the engine as one system: lookups, allocations and scheduler rounds, the forward
pass of each round on the worker, the calls it issues and their arrival at an agent that
other clients use as well; and what becomes of a model none of whose blocks are cached.

Does not own: timeouts and the event loop; `lookup` answers from other nodes, which the
connector never asks for. The engine allocates external tokens only for what the lookup
of the request matched, which is vLLM's side of the interface.
-/

namespace CmxRdma.Client

open CmxRdma.Agent
open CmxRdma.Lib.Transition
open CmxRdma.Proto
open ForwardPass

/-! ## Model -/

/-- The engine: the requests, the answer of the last lookup of each, the worker, every
call it has issued so far and the agent. -/
structure Engine where
  requests : Requests
  matched : Nat → Int
  worker : CmxRdmaConnector
  issued : List AsyncCall
  service : CacheService

inductive EngineEvent where
  | describe (request : Nat) (attributes : Request)
  | lookUp (request : Nat) (numComputedTokens : Int)
  | allocate (request : Nat) (blocks : AllocatedBlocks) (numExternalTokens : Int)
  | round (schedulerOutput : SchedulerOutput) (layerCalls : List LayerCall)
  | agent (event : Event)

namespace Engine

/-- A fresh worker and no answer yet. -/
def start (connector : SchedulerConnector) (requests : Requests) (service : CacheService) :
    Engine where
  requests := requests
  matched := fun _ => 0
  worker := .new connector.modelId
  issued := []
  service := service

section Model

variable (platform : Platform) (connector : SchedulerConnector)

/-- `get_num_new_matched_tokens` of a request, over the agent's `batch_lookup`. -/
def lookUp (engine : Engine) (request : Nat) (numComputedTokens : Int) :
    CacheService × Except SchedulerError Int :=
  connector.getNumNewMatchedTokens platform (AsyncCmxClient.batchLookup platform)
    engine.service (engine.requests request) numComputedTokens

/-- The forward pass of a round. -/
def forward (engine : Engine) (pass : ForwardPass) : Engine :=
  { engine with
    worker := run (next CmxRdmaConnector.step) engine.worker pass.calls
    issued := engine.issued ++ (outputs CmxRdmaConnector.step engine.worker pass.calls).flatten }

def step (engine : Engine) : EngineEvent → Engine
  | .describe request attributes =>
      -- vLLM's own attributes change; the connector's stays
      { engine with
        requests := Function.update engine.requests request
          { attributes with cmxLoadTasks := (engine.requests request).cmxLoadTasks } }
  | .lookUp request numComputedTokens =>
      match engine.lookUp platform connector request numComputedTokens with
      | (service, .error _) => { engine with service := service }
      | (service, .ok count) =>
          { engine with
            service := service
            matched := Function.update engine.matched request count }
  | .allocate request blocks numExternalTokens =>
      match connector.updateStateAfterAlloc platform (engine.requests request) blocks
          numExternalTokens with
      | .error _ => engine
      | .ok updated =>
          { engine with requests := Function.update engine.requests request updated }
  | .round schedulerOutput layerCalls =>
      match connector.buildConnectorMeta platform engine.requests schedulerOutput with
      | (requests, .error _) => { engine with requests := requests }
      | (requests, .ok connectorMeta) =>
          { engine with requests := requests }.forward ⟨.object connectorMeta, layerCalls⟩
  | .agent event =>
      { engine with service := next (CacheService.react platform) engine.service event }

/-- The stream is of a Store the worker has issued. -/
def Issued (engine : Engine) (stream : StoreStream) : Prop :=
  ∃ prefixHash data modelId, .store prefixHash data modelId ∈ engine.issued ∧
    stream = AsyncCmxClient.storeRequests prefixHash data modelId

/-- What the engine and the other clients do: external tokens are allocated only for
what was matched, and a Store that is not the worker's own is not under a key of the
connector's model. -/
def Allowed (engine : Engine) : EngineEvent → Prop
  | .allocate request _ numExternalTokens => numExternalTokens ≤ engine.matched request
  | .agent (.request (.store _ stream)) =>
      engine.Issued stream ∨
        ∀ key data, engine.service.storeAdmit platform stream = .ok (key, data) →
          ∀ prefixHash, key ≠ compositeKey platform connector.modelId prefixHash
  | _ => True

/-- Nothing is cached under any key of the connector's model. -/
def Cold (modelId : String) (service : CacheService) : Prop :=
  ∀ prefixHash, compositeKey platform modelId prefixHash ∉ service.index.map

end Model

/-! ## The agent -/

section Agent

variable {platform : Platform} {modelId : String} {service : CacheService}

theorem Cold.of_map (cold : Cold platform modelId service) {after : CacheService}
    (fewer : ∀ key ∈ after.index.map, key ∈ service.index.map) : Cold platform modelId after :=
  fun prefixHash present => cold prefixHash (fewer _ present)

/-- Only a Store under one of the keys ends it. -/
theorem Cold.react (cold : Cold platform modelId service) {event : Event}
    (foreign : ∀ now stream, event = .request (.store now stream) → ∀ key data,
      service.storeAdmit platform stream = .ok (key, data) →
        ∀ prefixHash, key ≠ compositeKey platform modelId prefixHash) :
    Cold platform modelId (next (CacheService.react platform) service event) := by
  cases event with
  | pressure level => exact cold
  | remote contents => exact cold
  | request request =>
      cases request with
      | lookup request =>
          apply cold.of_map
          intro key present
          rwa [← (lookup_touched request).2.map_eq]
      | batchLookup request =>
          apply cold.of_map
          intro key present
          rwa [← (batchLookupFrom_touched request.prefixHashes [] []).2.map_eq]
      | get request =>
          apply cold.of_map
          intro key present
          rwa [← (get_touched request).2.map_eq]
      | delete request => exact cold.of_map fun key present => Ledger.mem_of_mem_delete present
      | store now stream =>
          intro prefixHash present
          apply cold prefixHash
          have after : compositeKey platform modelId prefixHash ∈
            (service.store platform now stream).1.index.map := present
          by_cases succeeds : (service.store platform now stream).2.isOk
          · cases admitted : service.storeAdmit platform stream with
            | error failure => rwa [CacheService.store_of_not_admitted admitted] at after
            | ok pair =>
                have other := (foreign now stream rfl pair.1 pair.2 admitted prefixHash).symm
                obtain ⟨entry, found⟩ :=
                  Option.isSome_iff_exists.mp (AList.lookup_isSome.mpr after)
                have before := lookup_of_lookup_store admitted succeeds other found
                exact AList.lookup_isSome.mp (by rw [before]; rfl)
          · rwa [Ledger.index_store_of_failed succeeds] at after

end Agent

/-! ## The two sides of the connector -/

section Sides

variable {platform : Platform} {connector : SchedulerConnector}

theorem matchedBlocks_of_all_missing {found : List Bool} (missing : ∀ hit ∈ found, hit = false) :
    matchedBlocks found = 0 := by
  cases found with
  | nil => rfl
  | cons hit rest =>
      obtain rfl := missing hit List.mem_cons_self
      rfl

/-- On a cold agent a lookup matches no token, and leaves the agent cold. -/
theorem lookUp_of_cold {engine : Engine} (cold : Cold platform connector.modelId engine.service)
    (request : Nat) (numComputedTokens : Int) :
    Cold platform connector.modelId
        (engine.lookUp platform connector request numComputedTokens).1 ∧
      ∀ count, (engine.lookUp platform connector request numComputedTokens).2 = .ok count →
        count = 0 := by
  unfold lookUp SchedulerConnector.getNumNewMatchedTokens
  split
  · exact ⟨cold, fun count answered => (Except.ok.inj answered).symm⟩
  split
  · exact ⟨cold, fun count answered => (Except.ok.inj answered).symm⟩
  split
  · exact ⟨cold, fun count answered => by cases answered⟩
  split
  · exact ⟨cold, fun count answered => (Except.ok.inj answered).symm⟩
  rename_i prefixHashes hashed someHash
  constructor
  · apply cold.of_map
    intro key present
    rwa [← (batchLookupFrom_touched (prefixHashes.map PrefixHash.toBytes) [] []).2.map_eq]
  · intro count answered
    rw [Prod.map_snd, AsyncCmxClient.batchLookup_snd] at answered
    have missing : ∀ hit ∈ prefixHashes.map fun prefixHash =>
        (engine.service.index.map.lookup
          (compositeKey platform connector.modelId prefixHash)).isSome, hit = false := by
      intro hit member
      obtain ⟨prefixHash, -, rfl⟩ := List.mem_map.mp member
      rw [AList.lookup_eq_none.mpr (cold prefixHash)]
      rfl
    have counted := Except.ok.inj answered
    rw [matchedBlocks_of_all_missing missing] at counted
    omega

theorem collectLoads_of_no_tasks {requests : Requests}
    (noTasks : ∀ request, (requests request).cmxLoadTasks = none) (groups : List SeqGroup)
    (loads : List LoadTask) :
    (SchedulerConnector.collectLoads requests groups loads).1 = requests ∧
      ∀ collected, (SchedulerConnector.collectLoads requests groups loads).2 = .ok collected →
        collected = loads := by
  induction groups with
  | nil => exact ⟨rfl, fun collected same => (Except.ok.inj same).symm⟩
  | cons group rest inductionHypothesis =>
      rw [SchedulerConnector.collectLoads]
      cases group.first with
      | none => exact ⟨rfl, fun collected same => by cases same⟩
      | some request =>
          simp only [noTasks request]
          exact inductionHypothesis

/-- Without load tasks a round keeps the requests, and its metadata loads nothing. -/
theorem buildConnectorMeta_of_no_tasks {requests : Requests}
    (noTasks : ∀ request, (requests request).cmxLoadTasks = none)
    (schedulerOutput : SchedulerOutput) :
    (connector.buildConnectorMeta platform requests schedulerOutput).1 = requests ∧
      ∀ connectorMeta,
        (connector.buildConnectorMeta platform requests schedulerOutput).2 = .ok connectorMeta →
          ∀ handed ∈ connectorMeta, handed.loads = [] := by
  obtain ⟨same, nothing⟩ :=
    collectLoads_of_no_tasks noTasks (schedulerOutput.scheduledSeqGroups.getD []) []
  unfold SchedulerConnector.buildConnectorMeta
  rcases collected : SchedulerConnector.collectLoads requests
    (schedulerOutput.scheduledSeqGroups.getD []) [] with ⟨after, error | loads⟩
  · rw [collected] at same
    exact ⟨same, fun connectorMeta built => by cases built⟩
  · rw [collected] at same nothing
    apply And.intro same
    intro connectorMeta built handed isHanded
    obtain rfl : loads = [] := nothing loads rfl
    cases saved : connector.collectSaves platform after []
        (schedulerOutput.finishedSeqGroups.getD []) with
    | error error =>
        simp only [saved, Except.map] at built
        cases built
    | ok saves =>
        simp only [saved, Except.map] at built
        obtain rfl := Except.ok.inj built
        rw [Option.mem_def] at isHanded
        split at isHanded
        · cases isHanded
        · obtain rfl := Option.some.inj isHanded
          rfl

/-- A pass whose metadata loads nothing issues no call, whatever it has to save. -/
theorem forward_of_no_loads {engine : Engine} (idle : engine.worker.currentMeta = none)
    {connectorMeta : Option ConnectorMeta} (nothing : ∀ handed ∈ connectorMeta, handed.loads = [])
    (layerCalls : List LayerCall) :
    (engine.forward ⟨.object connectorMeta, layerCalls⟩).worker.currentMeta = none ∧
      (engine.forward ⟨.object connectorMeta, layerCalls⟩).issued = engine.issued := by
  have started : engine.worker.startLoadKv (.object connectorMeta) = (engine.worker, []) := by
    rw [CmxRdmaConnector.startLoadKv, getMeta]
    cases connectorMeta with
    | none => rfl
    | some handed => simp [nothing handed rfl]
  obtain ⟨-, issued⟩ := CmxRdmaConnector.run_layers engine.worker layerCalls
  have noStores : storesOf engine.worker.modelId (tasksOf none) (savedLayers layerCalls) = [] :=
    (storesOf_eq_nil_iff ..).mpr (Or.inl rfl)
  rw [idle, noStores] at issued
  simp only [forward, calls, run_cons, run_append, outputs, outputs_append, List.flatten_cons,
    List.flatten_append]
  apply And.intro rfl
  simp only [next, CmxRdmaConnector.step, started, issued, List.flatten_nil, List.append_nil]

end Sides

/-! ## Whole runs -/

/-- The connector has nothing to load, has issued nothing and found nothing. -/
structure Idle (platform : Platform) (connector : SchedulerConnector) (engine : Engine) :
    Prop where
  noTasks : ∀ request, (engine.requests request).cmxLoadTasks = none
  unmatched : ∀ request, engine.matched request = 0
  noMeta : engine.worker.currentMeta = none
  nothingIssued : engine.issued = []
  cold : Cold platform connector.modelId engine.service

/-- No step of the engine or of another client ends it. -/
theorem Idle.step {platform : Platform} {connector : SchedulerConnector} {engine : Engine}
    {event : EngineEvent} (allowed : engine.Allowed platform connector event)
    (idle : Idle platform connector engine) :
    Idle platform connector (engine.step platform connector event) := by
  cases event with
  | describe request attributes =>
      refine { idle with noTasks := fun other => ?_ }
      simp only [Engine.step]
      by_cases same : other = request
      · rw [same, Function.update_self]
        exact idle.noTasks request
      · rw [Function.update_of_ne same]
        exact idle.noTasks other
  | lookUp request numComputedTokens =>
      obtain ⟨cold, zero⟩ := lookUp_of_cold idle.cold request numComputedTokens
      rcases answered : engine.lookUp platform connector request numComputedTokens with
        ⟨service, error | count⟩
      · rw [answered] at cold
        simp only [Engine.step, answered]
        exact { idle with cold := cold }
      · rw [answered] at cold zero
        simp only [Engine.step, answered]
        refine { idle with cold := cold, unmatched := fun other => ?_ }
        show Function.update engine.matched request count other = 0
        by_cases same : other = request
        · rw [same, Function.update_self]
          exact zero count rfl
        · rw [Function.update_of_ne same]
          exact idle.unmatched other
  | allocate request blocks numExternalTokens =>
      have none : numExternalTokens ≤ 0 := by
        have atMost : numExternalTokens ≤ engine.matched request := allowed
        rwa [idle.unmatched request] at atMost
      simp only [Engine.step, SchedulerConnector.updateStateAfterAlloc, if_pos none,
        Function.update_eq_self]
      exact idle
  | round schedulerOutput layerCalls =>
      obtain ⟨same, nothing⟩ :=
        buildConnectorMeta_of_no_tasks idle.noTasks schedulerOutput
      rcases built : connector.buildConnectorMeta platform engine.requests schedulerOutput with
        ⟨requests, result⟩
      rw [built] at same nothing
      have noTasks : ∀ request, (requests request).cmxLoadTasks = none := by
        have unchanged : requests = engine.requests := same
        rw [unchanged]
        exact idle.noTasks
      cases result with
      | error error =>
        simp only [Engine.step, built]
        exact { idle with noTasks := noTasks }
      | ok connectorMeta =>
        simp only [Engine.step, built]
        obtain ⟨noMeta, sameIssued⟩ := @forward_of_no_loads { engine with requests := requests }
          idle.noMeta connectorMeta (nothing connectorMeta rfl) layerCalls
        exact {
          noTasks := noTasks
          unmatched := idle.unmatched
          noMeta := noMeta
          nothingIssued := sameIssued.trans idle.nothingIssued
          cold := idle.cold }
  | agent event =>
      refine { idle with cold := idle.cold.react ?_ }
      intro now stream isStore
      subst isStore
      apply Or.resolve_left allowed
      intro issued
      obtain ⟨prefixHash, data, modelId, member, -⟩ := issued
      rw [idle.nothingIssued] at member
      cases member

/-- A model that starts cold stays cold. While no other client stores under one of its
keys, then whatever requests arrive, are scheduled and finish, and whatever else happens
at the agent, no lookup of the connector ever matches a token, the worker never issues a
Get or a Store, and nothing is cached for the model: its own finished sequences are
saved only by passes that load something. -/
theorem cold_model_stays_cold (platform : Platform) (connector : SchedulerConnector)
    (requests : Requests) (service : CacheService) (events : List EngineEvent)
    (noTasks : ∀ request, (requests request).cmxLoadTasks = none)
    (cold : Cold platform connector.modelId service)
    (allowed : Allows (step platform connector) (Allowed platform connector)
      (start connector requests service) events) :
    let final := run (step platform connector) (start connector requests service) events
    final.issued = [] ∧ (∀ request, final.matched request = 0) ∧
      Cold platform connector.modelId final.service := by
  intro final
  have idle : Idle platform connector (start connector requests service) :=
    ⟨noTasks, fun _ => rfl, rfl, rfl, cold⟩
  have still : Idle platform connector final :=
    run_invariant_of_allows (fun _ _ step idle => Idle.step step idle) idle allowed
  exact ⟨still.nothingIssued, still.unmatched, still.cold⟩

/-- A request of two tokens that is looked up, finishes and is to be saved. -/
def firstRequest : List EngineEvent :=
  [.describe 0 ⟨some [1, 2], none, none, none⟩, .lookUp 0 0, .allocate 0 (.list [7]) 0,
    .round ⟨some [.single 0], none⟩ [],
    .round ⟨none, some [.single 0]⟩ [.saveKvLayer "layer_0" (.bytes [1, 2])]]

/-- The last round has a block to save, and no call is issued for it. -/
theorem cold_model_stays_cold_after_first_request :
    let connector : SchedulerConnector := ⟨"", 2⟩
    let service := CacheService.ofMain Memory.Geometry.twoBlocks "node" false
    let engine := start connector (fun _ => ⟨none, none, none, none⟩) service
    let before := run (step Platform.release connector) engine (firstRequest.take 4)
    let final := run (step Platform.release connector) engine firstRequest
    (connector.buildConnectorMeta Platform.release before.requests
        ⟨none, some [.single 0]⟩).2.toOption.join.map (fun handed => handed.saves.length) =
          some 1 ∧
      final.issued = [] := by
  intro connector service engine before final
  apply And.intro (by decide +kernel)
  refine (cold_model_stays_cold Platform.release connector _ service firstRequest
    (fun _ => rfl) (fun _ present => AList.notMem_empty _ present)
    ⟨trivial, trivial, ?_, trivial, trivial, trivial⟩).1
  show (0 : Int) ≤ _
  decide +kernel

end Engine

end CmxRdma.Client
