import Mathlib.Algebra.GroupWithZero.Nat
import Mathlib.Data.Finset.Card
import CmxRdma.Agent.Backpressure
import CmxRdma.Client.LayerSaves

/-!
Contract: what the forward passes of a connector cost the agent of `main`.

Owns: the blocks and the entries the Stores of any sequence of passes leave, in whatever
order they arrive, and the blocks they lose for good: every layer of a pass but one.

Does not own: what the agent still holds of the layers; see `LayerSaves`.
-/

namespace CmxRdma.Client

open CmxRdma.Agent
open CmxRdma.BlockStore
open CmxRdma.Lib.Transition
open CmxRdma.Memory
open ForwardPass

namespace ArrivedStore

variable {platform : Platform} {geometry : Geometry} {service : CacheService} {lost : Nat}

theorem len_eq_card (index : BlockIndex) : index.len = index.map.keys.toFinset.card := by
  rw [BlockIndex.len_eq_length_keys, List.toFinset_card_of_nodup index.map.keys_nodup]

/-- One Store of the agent of `main`: it takes a block, and loses one exactly when its key
was there. -/
theorem Succeeds.books (accounted : Accounted geometry geometry.totalBlocks service lost)
    {arrived : ArrivedStore} (succeeds : arrived.Succeeds platform service) :
    let after := next (serve platform) service arrived
    Accounted geometry geometry.totalBlocks after
        (if arrived.key platform ∈ service.index.map then lost + 1 else lost) ∧
      after.index.map.keys.toFinset =
        insert (arrived.key platform) service.index.map.keys.toFinset := by
  intro after
  obtain ⟨allocator, location, handle, outcome, stored⟩ :=
    CacheService.store_eq_of_isOk succeeds.admitted succeeds.store
  have isAfter : after = ({ service with allocator := allocator }.storeCommit
    (arrived.key platform) location arrived.now).1 := stored
  obtain ⟨block, freeEq, -⟩ := BlockAllocator.allocateAndWrite_eq_some outcome
  have room := accounted.len_lt_of_free (by simp [freeEq])
  have notFull : ¬ max 1 service.index.capacity ≤ service.index.len := by omega
  have committed := accounted.commit (arrived.key platform) arrived.now outcome
  simp only [notFull, or_false] at committed
  rw [isAfter]
  refine ⟨committed, ?_⟩
  obtain ⟨nobody, -⟩ := accounted.tracks.insert_below_capacity room (arrived.key platform)
    [location] arrived.now
  ext key
  rw [Finset.mem_insert, List.mem_toFinset, List.mem_toFinset, ← AList.mem_keys,
    ← AList.mem_keys, ← AList.lookup_isSome, ← AList.lookup_isSome]
  show ((service.index.insert (arrived.key platform) [location]
    arrived.now).1.map.lookup key).isSome ↔ _
  rw [BlockIndex.lookup_insert, nobody]
  by_cases same : key = arrived.key platform
  · simp [same]
  · simp [same]

/-- All Stores of an order: together entries and lost blocks grow by one for each. -/
theorem served_books (accounted : Accounted geometry geometry.totalBlocks service lost)
    {order : List ArrivedStore}
    (succeed : Allows (next (serve platform)) (Succeeds platform) service order) :
    ∃ lostAfter, Accounted geometry geometry.totalBlocks (served platform service order) lostAfter ∧
      (served platform service order).index.len + lostAfter =
        service.index.len + lost + order.length ∧
      (served platform service order).index.map.keys.toFinset =
        service.index.map.keys.toFinset ∪ (order.map (ArrivedStore.key platform)).toFinset := by
  induction order generalizing service lost with
  | nil => exact ⟨lost, accounted, rfl, by simp⟩
  | cons arrived rest inductionHypothesis =>
      obtain ⟨books, keys⟩ := succeed.1.books accounted
      obtain ⟨lostAfter, after, balance, keysAfter⟩ := inductionHypothesis books succeed.2
      have entries : (next (serve platform) service arrived).index.len =
          service.index.len + if arrived.key platform ∈ service.index.map then 0 else 1 := by
        rw [len_eq_card, len_eq_card, keys, Finset.card_insert_eq_ite]
        simp only [List.mem_toFinset, ← AList.mem_keys]
        split_ifs <;> rfl
      refine ⟨lostAfter, after, ?_, ?_⟩
      · rw [List.length_cons]
        show (served platform (next (serve platform) service arrived) rest).index.len + _ = _
        rw [balance, entries]
        split_ifs <;> omega
      · show (served platform (next (serve platform) service arrived)
          rest).index.map.keys.toFinset = _
        rw [keysAfter, keys, List.map_cons, List.toFinset_cons, Finset.union_insert,
          Finset.insert_union]

end ArrivedStore

/-! ## Passes -/

theorem length_storesOf (modelId : String) (saves : List SaveTask) (layers : List KvLayer) :
    (storesOf modelId saves layers).length = layers.length * saves.length := by
  simp [storesOf, List.length_flatMap]

/-- Layers and tasks of a pass: it stores every layer once for every task. -/
def ForwardPass.layerCount (pass : ForwardPass) : Nat := (savedLayers pass.layerCalls).length

def ForwardPass.taskCount (pass : ForwardPass) : Nat := (tasksOf pass.taken).length

/-- A pass has at most as many keys as tasks, however many layers it saves. -/
theorem card_keys_le (platform : Platform) (modelId : String) (passes : List ForwardPass) :
    ((passes.flatMap fun pass => (storesOf modelId (tasksOf pass.taken)
        (savedLayers pass.layerCalls)).map (AsyncCall.indexKey platform)).toFinset).card ≤
      (passes.map fun pass => min 1 pass.layerCount * pass.taskCount).sum := by
  induction passes with
  | nil => simp
  | cons pass rest inductionHypothesis =>
      rw [List.flatMap_cons, List.toFinset_append, List.map_cons, List.sum_cons]
      refine (Finset.card_union_le _ _).trans (Nat.add_le_add ?_ inductionHypothesis)
      cases layers : savedLayers pass.layerCalls with
      | nil => simp [storesOf]
      | cons first others =>
          have someLayer : min 1 pass.layerCount = 1 := by
            simp [ForwardPass.layerCount, layers]
          have few : (((storesOf modelId (tasksOf pass.taken) (first :: others)).map
              (AsyncCall.indexKey platform)).toFinset) ⊆
              ((tasksOf pass.taken).map (SaveTask.key platform modelId)).toFinset := by
            intro key member
            simp only [List.mem_toFinset, List.mem_map, mem_storesOf_iff] at member ⊢
            obtain ⟨call, ⟨kvLayer, -, task, scheduled, rfl⟩, rfl⟩ := member
            exact ⟨task, scheduled, rfl⟩
          rw [someLayer, Nat.one_mul]
          calc _ ≤ _ := Finset.card_le_card few
            _ ≤ _ := List.toFinset_card_le _
            _ = pass.taskCount := List.length_map _

/-- The blocks that any sequence of passes takes from an agent of `main`, its Stores
arriving in any order and all succeeding: one for each layer and each task of each pass,
while entries are made only for new keys. All layers of a pass have the keys of its
tasks, so for every task all layers but one are lost for good. -/
theorem passes_cost_blocks (platform : Platform) (geometry : Geometry) (nodeId : String)
    (metadata : Bool) (events : List Event) (connector : CmxRdmaConnector)
    (idle : connector.currentMeta = none) (passes : List ForwardPass) (order : List ArrivedStore)
    (reach : (order.map ArrivedStore.call).Perm
      (outputs CmxRdmaConnector.runPass connector passes).flatten)
    (succeed : Allows (next (ArrivedStore.serve platform)) (ArrivedStore.Succeeds platform)
      (run (next (CacheService.react platform)) (CacheService.ofMain geometry nodeId metadata)
        events) order) :
    let service := run (next (CacheService.react platform))
      (CacheService.ofMain geometry nodeId metadata) events
    let final := ArrivedStore.served platform service order
    final.allocator.stats.usedBlocks = service.allocator.stats.usedBlocks +
        (passes.map fun pass => pass.layerCount * pass.taskCount).sum ∧
      final.index.map.keys.toFinset = service.index.map.keys.toFinset ∪
        (order.map (ArrivedStore.key platform)).toFinset ∧
      service.emptiedStats.usedBlocks +
          (passes.map fun pass => (pass.layerCount - 1) * pass.taskCount).sum ≤
        final.emptiedStats.usedBlocks := by
  intro service final
  obtain ⟨lost, accounted, -⟩ :=
    (ofMain_accounted geometry nodeId metadata).run_react platform events
  rw [Nat.zero_add] at accounted
  obtain ⟨lostAfter, after, balance, keys⟩ := ArrivedStore.served_books accounted succeed
  rw [CmxRdmaConnector.outputs_runPass idle] at reach
  have count : order.length = (passes.map fun pass => pass.layerCount * pass.taskCount).sum := by
    have sameLength := reach.length_eq
    rw [List.length_map, List.length_flatten, List.map_map] at sameLength
    rw [sameLength]
    exact congrArg List.sum (List.map_congr_left fun pass _ => length_storesOf ..)
  have distinct : (order.map (ArrivedStore.key platform)).toFinset.card ≤
      (passes.map fun pass => min 1 pass.layerCount * pass.taskCount).sum := by
    have sameKeys := List.toFinset_eq_of_perm _ _ (reach.map (AsyncCall.indexKey platform))
    rw [List.map_map, List.map_flatten, List.map_map] at sameKeys
    refine le_of_eq_of_le (congrArg Finset.card sameKeys) ?_
    exact card_keys_le platform connector.modelId passes
  have each : (passes.map fun pass => pass.layerCount * pass.taskCount).sum =
      (passes.map fun pass => (pass.layerCount - 1) * pass.taskCount).sum +
        (passes.map fun pass => min 1 pass.layerCount * pass.taskCount).sum := by
    rw [← List.sum_map_add]
    refine congrArg List.sum (List.map_congr_left fun pass _ => ?_)
    rw [← Nat.add_mul]
    congr 1
    omega
  have entries : final.index.len ≤ service.index.len +
      (order.map (ArrivedStore.key platform)).toFinset.card := by
    rw [ArrivedStore.len_eq_card, ArrivedStore.len_eq_card, keys]
    exact Finset.card_union_le _ _
  refine ⟨?_, keys, ?_⟩
  · rw [after.usedBlocks_eq, accounted.usedBlocks_eq, balance, count]
  · rw [after.emptiedStats_used, accounted.emptiedStats_used]
    have total : final.index.len + lostAfter = service.index.len + lost + order.length := balance
    omega

/-- Two layers of one pass with one task: two blocks are in use for one entry. -/
theorem passes_cost_blocks_of_two_layers :
    let connectorMeta : ConnectorMeta := ⟨[⟨.ofByte 9, [], 16⟩], [⟨.ofByte 7, [], 16⟩]⟩
    let pass : ForwardPass := ⟨.object (some connectorMeta),
      [.saveKvLayer "layer_0" (.bytes [1]), .saveKvLayer "layer_1" (.bytes [2])]⟩
    let order : List ArrivedStore := [⟨0, .ofByte 7, [2], ""⟩, ⟨0, .ofByte 7, [1], ""⟩]
    let service := CacheService.ofMain Geometry.twoBlocks "node" false
    let final := ArrivedStore.served Platform.release service order
    (order.map ArrivedStore.call).Perm
        (outputs CmxRdmaConnector.runPass (.new "") [pass]).flatten ∧
      final.allocator.stats.usedBlocks = 2 ∧ 1 ≤ final.emptiedStats.usedBlocks := by
  intro connectorMeta pass order service final
  have reach : (order.map ArrivedStore.call).Perm
      (outputs CmxRdmaConnector.runPass (.new "") [pass]).flatten := by decide +kernel
  obtain ⟨used, -, lost⟩ := passes_cost_blocks Platform.release Geometry.twoBlocks "node" false []
    (.new "") rfl [pass] order reach (by decide +kernel)
  exact ⟨reach, used, lost⟩

end CmxRdma.Client
