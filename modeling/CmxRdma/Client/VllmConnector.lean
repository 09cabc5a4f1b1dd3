import Mathlib.Data.List.AList
import CmxRdma.Lib.Text
import CmxRdma.Lib.Transition
import CmxRdma.Platform

/-!
Contract: the worker side of `cmx_vllm/connector.py`.

Owns: the metadata a worker receives, `start_load_kv`, `wait_for_layer_load`,
`save_kv_layer` and `wait_for_save` with the calls they hand to the event loop,
forward passes as sequences of these, and exactly which passes store what their
metadata schedules.

Does not own: the scheduler side; the event loop, its client and the outcome of a
call, which no worker method depends on; an object that `bytes` does not convert.
Page ids and token counts of the tasks are read by nothing on this side.
-/

namespace CmxRdma.Client

open CmxRdma.Lib.Text
open CmxRdma.Lib.Transition

/-! ## Model -/

structure LoadTask where
  prefixHash : PrefixHash
  blockIds : List Nat
  numTokens : Nat
deriving DecidableEq

structure SaveTask where
  prefixHash : PrefixHash
  blockIds : List Nat
  numTokens : Nat
deriving DecidableEq

structure ConnectorMeta where
  loads : List LoadTask
  saves : List SaveTask
deriving DecidableEq

/-- What a worker is handed with a forward pass: an object with the attribute
`connector_meta`, a dictionary that may have such an entry, or neither. -/
inductive ForwardContext where
  | object (connectorMeta : Option ConnectorMeta)
  | dictionary (connectorMeta : Option ConnectorMeta)
  | other

/-- `_get_meta`. -/
def getMeta : ForwardContext → Option ConnectorMeta
  | .object connectorMeta => connectorMeta
  | .dictionary connectorMeta => connectorMeta
  | .other => none

/-- A layer by the way its bytes are obtained. -/
inductive KvLayer where
  | tensor (contents : List UInt8)
  | bytes (contents : List UInt8)
  | convertible (contents : List UInt8)
deriving DecidableEq

/-- The serialization in `save_kv_layer`. -/
def KvLayer.data : KvLayer → List UInt8
  | .tensor contents => contents
  | .bytes contents => contents
  | .convertible contents => contents

/-- A coroutine of the asynchronous client, handed to the event loop. -/
inductive AsyncCall where
  | get (prefixHash : PrefixHash) (modelId : String)
  | store (prefixHash : PrefixHash) (data : List UInt8) (modelId : String)
deriving DecidableEq

def AsyncCall.isStore : AsyncCall → Bool
  | .get _ _ => false
  | .store _ _ _ => true

/-- The worker's state. A future is named by its number in the order of submission;
`submitted` counts them. -/
structure CmxRdmaConnector where
  modelId : String
  submitted : Nat
  pendingLoads : AList fun _ : String => Nat
  pendingSaves : List Nat
  currentMeta : Option ConnectorMeta

namespace CmxRdmaConnector

def new (modelId : String) : CmxRdmaConnector where
  modelId := modelId
  submitted := 0
  pendingLoads := ∅
  pendingSaves := []
  currentMeta := none

/-- One iteration of the loop in `start_load_kv`. -/
def submitLoad (connector : CmxRdmaConnector) (task : LoadTask) : CmxRdmaConnector :=
  { connector with
    submitted := connector.submitted + 1
    pendingLoads := connector.pendingLoads.insert
      (String.ofList (hexEncode task.prefixHash.toBytes)) connector.submitted }

def startLoadKv (connector : CmxRdmaConnector) (forwardContext : ForwardContext) :
    CmxRdmaConnector × List AsyncCall :=
  match getMeta forwardContext with
  | none => (connector, [])
  | some connectorMeta =>
      if connectorMeta.loads.isEmpty then (connector, [])
      else
        (connectorMeta.loads.foldl submitLoad { connector with currentMeta := connectorMeta },
          connectorMeta.loads.map fun task => .get task.prefixHash connector.modelId)

def waitForLayerLoad (connector : CmxRdmaConnector) (_layerName : String) : CmxRdmaConnector :=
  { connector with pendingLoads := ∅ }

/-- One iteration of the loop in `save_kv_layer`. -/
def submitSave (connector : CmxRdmaConnector) (_task : SaveTask) : CmxRdmaConnector :=
  { connector with
    submitted := connector.submitted + 1
    pendingSaves := connector.pendingSaves ++ [connector.submitted] }

def saveKvLayer (connector : CmxRdmaConnector) (_layerName : String) (kvLayer : KvLayer) :
    CmxRdmaConnector × List AsyncCall :=
  match connector.currentMeta with
  | none => (connector, [])
  | some connectorMeta =>
      if connectorMeta.saves.isEmpty then (connector, [])
      else
        (connectorMeta.saves.foldl submitSave connector,
          connectorMeta.saves.map fun task =>
            .store task.prefixHash kvLayer.data connector.modelId)

def waitForSave (connector : CmxRdmaConnector) : CmxRdmaConnector :=
  { connector with pendingSaves := [], currentMeta := none }

end CmxRdmaConnector

/-- The calls of a forward pass between its first and its last. -/
inductive LayerCall where
  | waitForLayerLoad (layerName : String)
  | saveKvLayer (layerName : String) (kvLayer : KvLayer)

inductive WorkerCall where
  | startLoadKv (forwardContext : ForwardContext)
  | layer (call : LayerCall)
  | waitForSave

namespace CmxRdmaConnector

/-- One call on the worker, with the calls it hands to the event loop. -/
def step (connector : CmxRdmaConnector) : WorkerCall → CmxRdmaConnector × List AsyncCall
  | .startLoadKv forwardContext => connector.startLoadKv forwardContext
  | .layer (.waitForLayerLoad layerName) => (connector.waitForLayerLoad layerName, [])
  | .layer (.saveKvLayer layerName kvLayer) => connector.saveKvLayer layerName kvLayer
  | .waitForSave => (connector.waitForSave, [])

end CmxRdmaConnector

structure ForwardPass where
  forwardContext : ForwardContext
  layerCalls : List LayerCall

namespace ForwardPass

def calls (pass : ForwardPass) : List WorkerCall :=
  .startLoadKv pass.forwardContext :: (pass.layerCalls.map .layer ++ [.waitForSave])

/-- The layers a list of calls saves. -/
def savedLayers (layerCalls : List LayerCall) : List KvLayer :=
  layerCalls.filterMap fun
    | .waitForLayerLoad _ => none
    | .saveKvLayer _ kvLayer => some kvLayer

/-- One Store for each layer and each task. -/
def storesOf (modelId : String) (saves : List SaveTask) (layers : List KvLayer) :
    List AsyncCall :=
  layers.flatMap fun kvLayer =>
    saves.map fun task => .store task.prefixHash kvLayer.data modelId

/-- The Stores the metadata of a pass schedules. -/
def scheduled (modelId : String) (pass : ForwardPass) : List AsyncCall :=
  match getMeta pass.forwardContext with
  | none => []
  | some connectorMeta =>
      storesOf modelId connectorMeta.saves (savedLayers pass.layerCalls)

/-- The pass has no metadata, or loads as well, or nothing to save. -/
def LoadsWhenSaving (pass : ForwardPass) : Prop :=
  ∀ connectorMeta ∈ getMeta pass.forwardContext,
    connectorMeta.loads ≠ [] ∨ connectorMeta.saves = [] ∨ savedLayers pass.layerCalls = []

end ForwardPass

namespace CmxRdmaConnector

/-- A forward pass, with the Stores issued in it. -/
def runPass (connector : CmxRdmaConnector) (pass : ForwardPass) :
    CmxRdmaConnector × List AsyncCall :=
  (run (next step) connector pass.calls,
    (outputs step connector pass.calls).flatten.filter AsyncCall.isStore)

end CmxRdmaConnector

/-! ## What each call issues -/

namespace ForwardPass

theorem storesOf_eq_nil_iff (modelId : String) (saves : List SaveTask) (layers : List KvLayer) :
    storesOf modelId saves layers = [] ↔ saves = [] ∨ layers = [] := by
  cases layers with
  | nil => simp [storesOf]
  | cons kvLayer rest => cases saves <;> simp [storesOf]

theorem isStore_of_mem_storesOf {modelId : String} {saves : List SaveTask}
    {layers : List KvLayer} {call : AsyncCall} (member : call ∈ storesOf modelId saves layers) :
    call.isStore := by
  obtain ⟨kvLayer, -, issued⟩ := List.mem_flatMap.mp member
  obtain ⟨task, -, rfl⟩ := List.mem_map.mp issued
  rfl

/-- The metadata a pass leaves for its layers: what it was handed, if that loads. -/
def taken (pass : ForwardPass) : Option ConnectorMeta :=
  (getMeta pass.forwardContext).filter fun connectorMeta => !connectorMeta.loads.isEmpty

/-- The tasks `save_kv_layer` goes through. -/
def tasksOf (currentMeta : Option ConnectorMeta) : List SaveTask :=
  (currentMeta.map ConnectorMeta.saves).getD []

end ForwardPass

namespace CmxRdmaConnector

open ForwardPass

theorem foldl_submitLoad (loads : List LoadTask) (connector : CmxRdmaConnector) :
    (loads.foldl submitLoad connector).modelId = connector.modelId ∧
      (loads.foldl submitLoad connector).currentMeta = connector.currentMeta :=
  List.foldlRecOn (motive := fun other : CmxRdmaConnector =>
    other.modelId = connector.modelId ∧ other.currentMeta = connector.currentMeta)
    loads submitLoad ⟨rfl, rfl⟩ fun _ same _ _ => same

theorem foldl_submitSave (saves : List SaveTask) (connector : CmxRdmaConnector) :
    (saves.foldl submitSave connector).modelId = connector.modelId ∧
      (saves.foldl submitSave connector).currentMeta = connector.currentMeta :=
  List.foldlRecOn (motive := fun other : CmxRdmaConnector =>
    other.modelId = connector.modelId ∧ other.currentMeta = connector.currentMeta)
    saves submitSave ⟨rfl, rfl⟩ fun _ same _ _ => same

/-- Without metadata of an earlier pass, `start_load_kv` leaves metadata only if it
loads, and issues no Store. -/
theorem startLoadKv_spec {connector : CmxRdmaConnector} (idle : connector.currentMeta = none)
    (pass : ForwardPass) :
    (connector.startLoadKv pass.forwardContext).1.modelId = connector.modelId ∧
      (connector.startLoadKv pass.forwardContext).1.currentMeta = pass.taken ∧
      (connector.startLoadKv pass.forwardContext).2.filter AsyncCall.isStore = [] := by
  unfold startLoadKv taken
  cases handed : getMeta pass.forwardContext with
  | none => exact ⟨rfl, idle, rfl⟩
  | some connectorMeta =>
      by_cases empty : connectorMeta.loads.isEmpty
      · simp [empty, idle, Option.filter]
      · have folded := foldl_submitLoad connectorMeta.loads
          { connector with currentMeta := connectorMeta }
        simp [empty, folded, AsyncCall.isStore, Option.filter]

/-- A layer call keeps the metadata; one that saves issues a Store for each task. -/
theorem step_layer (connector : CmxRdmaConnector) (call : LayerCall) :
    (connector.step (.layer call)).1.modelId = connector.modelId ∧
      (connector.step (.layer call)).1.currentMeta = connector.currentMeta ∧
      (connector.step (.layer call)).2 =
        storesOf connector.modelId (tasksOf connector.currentMeta) (savedLayers [call]) := by
  cases call with
  | waitForLayerLoad layerName => exact ⟨rfl, rfl, rfl⟩
  | saveKvLayer layerName kvLayer =>
      simp only [step, saveKvLayer]
      cases current : connector.currentMeta with
      | none => simp [current, storesOf, tasksOf, savedLayers]
      | some connectorMeta =>
          by_cases empty : connectorMeta.saves.isEmpty
          · simp_all [storesOf, tasksOf, savedLayers]
          · have folded := foldl_submitSave connectorMeta.saves connector
            simp [empty, folded, current, storesOf, tasksOf, savedLayers]

/-- The layer calls of a pass together. -/
theorem run_layers (connector : CmxRdmaConnector) (layerCalls : List LayerCall) :
    (run (next step) connector (layerCalls.map .layer)).modelId = connector.modelId ∧
      (outputs step connector (layerCalls.map .layer)).flatten =
        storesOf connector.modelId (tasksOf connector.currentMeta) (savedLayers layerCalls) := by
  induction layerCalls generalizing connector with
  | nil => exact ⟨rfl, rfl⟩
  | cons call rest inductionHypothesis =>
      obtain ⟨sameModel, sameMeta, issued⟩ := step_layer connector call
      obtain ⟨restModel, restIssued⟩ := inductionHypothesis (next step connector (.layer call))
      rw [next, sameModel] at restModel
      rw [next, sameModel, sameMeta] at restIssued
      refine ⟨restModel, ?_⟩
      rw [List.map_cons, outputs, List.flatten_cons, issued, next, restIssued]
      simp [storesOf, savedLayers, ← List.flatMap_append, ← List.filterMap_append]

/-- A pass between passes leaves no metadata behind, and stores for the tasks of the
metadata it took. -/
theorem runPass_spec {connector : CmxRdmaConnector} (idle : connector.currentMeta = none)
    (pass : ForwardPass) :
    (connector.runPass pass).1.modelId = connector.modelId ∧
      (connector.runPass pass).1.currentMeta = none ∧
      (connector.runPass pass).2 =
        storesOf connector.modelId (tasksOf pass.taken) (savedLayers pass.layerCalls) := by
  obtain ⟨startModel, startMeta, noStore⟩ := startLoadKv_spec idle pass
  obtain ⟨layersModel, issued⟩ :=
    run_layers (connector.startLoadKv pass.forwardContext).1 pass.layerCalls
  rw [startModel, startMeta] at issued
  simp only [runPass, ForwardPass.calls, run_cons, run_append, outputs, outputs_append,
    List.flatten_cons, List.flatten_append, List.filter_append]
  refine ⟨layersModel.trans startModel, rfl, ?_⟩
  simp only [next, step, noStore, issued, List.flatten_nil, List.append_nil,
    List.nil_append, List.filter_nil]
  exact List.filter_eq_self.mpr fun call member => isStore_of_mem_storesOf member

/-- The Stores of every pass of a run. -/
theorem outputs_runPass {connector : CmxRdmaConnector} (idle : connector.currentMeta = none)
    (passes : List ForwardPass) :
    outputs runPass connector passes = passes.map fun pass =>
      storesOf connector.modelId (tasksOf pass.taken) (savedLayers pass.layerCalls) := by
  induction passes generalizing connector with
  | nil => rfl
  | cons pass rest inductionHypothesis =>
      obtain ⟨sameModel, stillIdle, issued⟩ := runPass_spec idle pass
      rw [outputs, issued, next, inductionHypothesis stillIdle, sameModel, List.map_cons]

end CmxRdmaConnector

/-! ## What is stored of what is scheduled -/

namespace ForwardPass

/-- A pass stores what is scheduled in it, up to order, exactly if it loads when it
has something to save. -/
theorem stores_perm_scheduled_iff (modelId : String) (pass : ForwardPass) :
    (storesOf modelId (tasksOf pass.taken) (savedLayers pass.layerCalls)).Perm
        (pass.scheduled modelId) ↔ pass.LoadsWhenSaving := by
  unfold taken scheduled LoadsWhenSaving
  cases handed : getMeta pass.forwardContext with
  | none => simp [storesOf, tasksOf]
  | some connectorMeta =>
      by_cases loads : connectorMeta.loads = []
      · have nothing : storesOf modelId (tasksOf none) (savedLayers pass.layerCalls) = [] :=
          (storesOf_eq_nil_iff ..).mpr (.inl rfl)
        simp [loads, Option.filter, nothing, List.nil_perm, storesOf_eq_nil_iff]
      · simp [loads, Option.filter, tasksOf]

end ForwardPass

/-- Whatever passes a worker goes through, each issues exactly one Store for each of
its layers and each save task of its own metadata if and only if every pass whose
metadata has something to save for some layer has something to load as well. -/
theorem scheduled_saves_stored_iff (modelId : String) (passes : List ForwardPass) :
    List.Forall₂ List.Perm (outputs CmxRdmaConnector.runPass (.new modelId) passes)
        (passes.map (ForwardPass.scheduled modelId)) ↔
      ∀ pass ∈ passes, pass.LoadsWhenSaving := by
  rw [CmxRdmaConnector.outputs_runPass rfl, List.forall₂_map_left_iff,
    List.forall₂_map_right_iff, List.forall₂_same]
  exact forall₂_congr fun pass _ => pass.stores_perm_scheduled_iff modelId

/-- On a cold cache a finished request is saved and nothing is loaded: the one layer of
this pass is stored nowhere. -/
theorem cold_pass_stores_nothing :
    let task : SaveTask := ⟨.ofByte 7, [], 16⟩
    let pass : ForwardPass :=
      ⟨.object (some ⟨[], [task]⟩), [.saveKvLayer "layer_0" (.bytes [1, 2])]⟩
    (CmxRdmaConnector.runPass (.new "") pass).2 = [] ∧
      pass.scheduled "" = [.store task.prefixHash [1, 2] ""] := by
  decide

end CmxRdma.Client
