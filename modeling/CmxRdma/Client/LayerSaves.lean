import CmxRdma.Client.AsyncClient
import CmxRdma.Client.VllmConnector

/-!
Contract: the layers of one forward pass at the agent.

Owns: the Stores of a pass in the order they reach an agent, what the agent holds
of the layers afterwards, and exactly when it holds all of them and no Store of
the pass has replaced the entry of another.

Does not own: Stores that fail or whose entries are evicted in the pass.
-/

namespace CmxRdma.Client

open CmxRdma.Agent
open CmxRdma.BlockStore (IndexEntry)
open CmxRdma.Lib.Transition
open CmxRdma.Memory
open CmxRdma.Proto

/-! ## Stores at an agent -/

/-- The index key a call reads or writes. -/
def AsyncCall.indexKey (platform : Platform) : AsyncCall → PrefixHash
  | .get prefixHash modelId => compositeKey platform modelId prefixHash
  | .store prefixHash _ modelId => compositeKey platform modelId prefixHash

/-- A Store of the asynchronous client with the agent's clock when it arrives. -/
structure ArrivedStore where
  now : UInt64
  prefixHash : PrefixHash
  data : List UInt8
  modelId : String

namespace ArrivedStore

def call (arrived : ArrivedStore) : AsyncCall :=
  .store arrived.prefixHash arrived.data arrived.modelId

def key (platform : Platform) (arrived : ArrivedStore) : PrefixHash :=
  arrived.call.indexKey platform

def serve (platform : Platform) (service : CacheService) (arrived : ArrivedStore) :
    CacheService × Except Failure (Bool × UInt64) :=
  AsyncCmxClient.store platform service arrived.now arrived.prefixHash arrived.data
    arrived.modelId

def Succeeds (platform : Platform) (service : CacheService) (arrived : ArrivedStore) : Prop :=
  (arrived.serve platform service).2.isOk

instance (platform : Platform) (service : CacheService) (arrived : ArrivedStore) :
    Decidable (arrived.Succeeds platform service) :=
  inferInstanceAs (Decidable ((arrived.serve platform service).2.isOk = true))

/-- The agent after some Stores. -/
abbrev served (platform : Platform) (service : CacheService) (order : List ArrivedStore) :
    CacheService :=
  run (next (serve platform)) service order

/-- Every Store of the order left an entry that is in the index at the end. -/
def NoneReplaced (platform : Platform) : CacheService → List ArrivedStore → Prop
  | _, [] => True
  | service, arrived :: rest =>
      let after := next (serve platform) service arrived
      (served platform after rest).index.map.lookup (arrived.key platform) =
          after.index.map.lookup (arrived.key platform) ∧
        NoneReplaced platform after rest

section Serving

variable {platform : Platform} {service : CacheService} {arrived : ArrivedStore}
  {order : List ArrivedStore} {entry : IndexEntry} {bytes : List UInt8}
  {location : BlockStore.BlockLocation} {block : Nat} {key : PrefixHash}

theorem Succeeds.store (succeeds : arrived.Succeeds platform service) :
    (service.store platform arrived.now
      (CmxClient.storeRequests arrived.prefixHash arrived.data arrived.modelId)).2.isOk := by
  rw [Succeeds, serve, AsyncCmxClient.store_eq] at succeeds
  exact CmxClient.isOk_of_isOk_store succeeds

theorem Succeeds.admitted (succeeds : arrived.Succeeds platform service) :
    service.storeAdmit platform
        (CmxClient.storeRequests arrived.prefixHash arrived.data arrived.modelId) =
      .ok (arrived.key platform, arrived.data) :=
  CmxClient.storeAdmit_of_isOk succeeds.store

theorem geometry_served
    (succeed : Allows (next (serve platform)) (Succeeds platform) service order) :
    (served platform service order).allocator.pool.geometry =
      service.allocator.pool.geometry := by
  induction order generalizing service with
  | nil => rfl
  | cons arrived rest inductionHypothesis =>
      exact (inductionHypothesis succeed.2).trans
        (geometry_store succeed.1.admitted succeed.1.store)

/-- What is kept stays kept while Stores succeed. -/
theorem keeps_served (keeps : Keeps platform service.allocator entry bytes location block)
    (succeed : Allows (next (serve platform)) (Succeeds platform) service order) :
    Keeps platform (served platform service order).allocator entry bytes location block := by
  induction order generalizing service with
  | nil => exact keeps
  | cons arrived rest inductionHypothesis =>
      exact inductionHypothesis (keeps.store succeed.1.admitted succeed.1.store) succeed.2

/-- An entry found after Stores under other keys was there before them. -/
theorem lookup_of_lookup_served
    (succeed : Allows (next (serve platform)) (Succeeds platform) service order)
    (untouched : key ∉ order.map (ArrivedStore.key platform))
    (found : (served platform service order).index.map.lookup key = some entry) :
    service.index.map.lookup key = some entry := by
  induction order generalizing service with
  | nil => exact found
  | cons arrived rest inductionHypothesis =>
      rw [List.map_cons, List.mem_cons, not_or] at untouched
      exact lookup_of_lookup_store succeed.1.admitted succeed.1.store untouched.1
        (inductionHypothesis succeed.2 untouched.2 found)

/-- Where every entry has one block, it has after Stores. -/
theorem single_served
    (single : ∀ key entry, service.index.map.lookup key = some entry →
      ∃ location, entry.blocks = [location])
    (succeed : Allows (next (serve platform)) (Succeeds platform) service order) :
    ∀ key entry, (served platform service order).index.map.lookup key = some entry →
      ∃ location, entry.blocks = [location] := by
  refine @run_invariant_of_allows _ _ _ _ (fun service : CacheService => ∀ key entry,
    service.index.map.lookup key = some entry → ∃ location, entry.blocks = [location]) ?_ _ single
    _ succeed
  intro reached arrived succeeds oneBlock key entry found
  exact single_store succeeds.admitted succeeds.store oneBlock found

/-- A kept entry is not found under the key of a later Store. -/
theorem untouched_of_lookup_served
    (keeps : Keeps platform service.allocator entry bytes location block)
    (succeed : Allows (next (serve platform)) (Succeeds platform) service order)
    (found : (served platform service order).index.map.lookup key = some entry) :
    key ∉ order.map (ArrivedStore.key platform) := by
  induction order generalizing service with
  | nil => exact List.not_mem_nil
  | cons arrived rest inductionHypothesis =>
      have untouchedLater := inductionHypothesis
        (keeps.store succeed.1.admitted succeed.1.store) succeed.2 found
      have foundAfter := lookup_of_lookup_served succeed.2 untouchedLater found
      exact List.not_mem_cons_of_ne_of_not_mem
        (keeps.ne_of_lookup_store succeed.1.admitted succeed.1.store foundAfter) untouchedLater

/-- In an index that holds an entry for every Store, none is replaced exactly if no two
Stores have the same key. -/
theorem noneReplaced_iff (freeNodup : service.allocator.pool.freeList.Nodup)
    (succeed : Allows (next (serve platform)) (Succeeds platform) service order)
    (short : ∀ arrived ∈ order, arrived.data.length < 2 ^ 32)
    (held : ∀ arrived ∈ order,
      arrived.key platform ∈ (served platform service order).index.map) :
    NoneReplaced platform service order ↔ (order.map (ArrivedStore.key platform)).Nodup := by
  induction order generalizing service with
  | nil => exact iff_of_true trivial List.nodup_nil
  | cons arrived rest inductionHypothesis =>
      have freeNodupAfter := freeNodup_store succeed.1.admitted succeed.1.store freeNodup
      have later := @inductionHypothesis (next (serve platform) service arrived) freeNodupAfter
        succeed.2 (fun other member => short other (List.mem_cons_of_mem _ member))
        (fun other member => held other (List.mem_cons_of_mem _ member))
      obtain ⟨entry, location, block, written, keeps⟩ := keeps_of_store succeed.1.admitted
        succeed.1.store freeNodup (short arrived List.mem_cons_self)
      rw [List.map_cons, List.nodup_cons, NoneReplaced, later]
      -- its block tells the entry apart from those of all later Stores
      refine and_congr_left fun _ => ⟨fun same => ?_, fun untouched => ?_⟩
      · exact untouched_of_lookup_served keeps succeed.2 (same.trans written)
      · obtain ⟨last, found⟩ := Option.isSome_iff_exists.mp
          (AList.lookup_isSome.mpr (held arrived List.mem_cons_self))
        exact found.trans (lookup_of_lookup_served succeed.2 untouched found).symm

/-- Where no two Stores have the same key, the bytes of each are read back under its
key. -/
theorem get_served_of_nodup (firstPool : service.allocator.pool.geometry.poolId = 0)
    (freeNodup : service.allocator.pool.freeList.Nodup)
    (succeed : Allows (next (serve platform)) (Succeeds platform) service order)
    (short : ∀ arrived ∈ order, arrived.data.length < 2 ^ 32)
    (held : ∀ arrived ∈ order,
      arrived.key platform ∈ (served platform service order).index.map)
    (apart : (order.map (ArrivedStore.key platform)).Nodup) (member : arrived ∈ order) :
    (AsyncCmxClient.get platform (served platform service order) (arrived.key platform) "").2 =
      .ok (some arrived.data) := by
  induction order generalizing service with
  | nil => exact absurd member List.not_mem_nil
  | cons first rest inductionHypothesis =>
      have sameGeometry := geometry_store succeed.1.admitted succeed.1.store
      have freeNodupAfter := freeNodup_store succeed.1.admitted succeed.1.store freeNodup
      rw [List.map_cons, List.nodup_cons] at apart
      rcases List.mem_cons.mp member with rfl | inRest
      · obtain ⟨entry, location, block, written, keeps⟩ := keeps_of_store succeed.1.admitted
          succeed.1.store freeNodup (short arrived List.mem_cons_self)
        obtain ⟨last, found⟩ := Option.isSome_iff_exists.mp
          (AList.lookup_isSome.mpr (held arrived List.mem_cons_self))
        have same := lookup_of_lookup_served succeed.2 apart.1 found
        obtain rfl : last = entry := Option.some.inj (same.symm.trans written)
        have keptAtEnd := @keeps_served _ (next (serve platform) service arrived) rest _ _ _ _
          keeps succeed.2
        refine AsyncCmxClient.get_of_keeps ?_ found keptAtEnd
        rw [geometry_served succeed]
        exact firstPool
      · exact @inductionHypothesis (next (serve platform) service first)
          ((congrArg Geometry.poolId sameGeometry).trans firstPool) freeNodupAfter succeed.2
          (fun other later => short other (List.mem_cons_of_mem _ later))
          (fun other later => held other (List.mem_cons_of_mem _ later)) apart.2 inRest

end Serving

end ArrivedStore

/-! ## The Stores of a pass -/

open ForwardPass

/-- A Get under some index key returns the bytes. -/
def Held (platform : Platform) (service : CacheService) (bytes : List UInt8) : Prop :=
  ∃ key, (AsyncCmxClient.get platform service key "").2 = .ok (some bytes)

/-- The key a task is saved under: the layer is no part of it. -/
def SaveTask.key (platform : Platform) (modelId : String) (task : SaveTask) : PrefixHash :=
  compositeKey platform modelId task.prefixHash

/-- The pass saves no layer, or has no task and the agent holds its layers already, or
saves one layer, whose length fits the `u32` of a header, under distinct keys. -/
def ForwardPass.OneLayer (platform : Platform) (modelId : String) (service : CacheService)
    (pass : ForwardPass) : Prop :=
  savedLayers pass.layerCalls = [] ∨
  tasksOf pass.taken = [] ∧
    (∀ kvLayer ∈ savedLayers pass.layerCalls, Held platform service kvLayer.data) ∨
  (savedLayers pass.layerCalls).length = 1 ∧ tasksOf pass.taken ≠ [] ∧
    ((tasksOf pass.taken).map (SaveTask.key platform modelId)).Nodup ∧
    ∀ kvLayer ∈ savedLayers pass.layerCalls, kvLayer.data.length < 2 ^ 32

section Pass

variable {platform : Platform} {modelId : String} {saves : List SaveTask}
  {layers : List KvLayer} {order : List ArrivedStore} {arrived : ArrivedStore}

theorem mem_storesOf_iff {call : AsyncCall} :
    call ∈ storesOf modelId saves layers ↔ ∃ kvLayer ∈ layers, ∃ task ∈ saves,
      .store task.prefixHash kvLayer.data modelId = call := by
  simp only [storesOf, List.mem_flatMap, List.mem_map]

theorem data_of_mem (reach : (order.map ArrivedStore.call).Perm (storesOf modelId saves layers))
    (member : arrived ∈ order) : ∃ kvLayer ∈ layers, arrived.data = kvLayer.data := by
  have issued := reach.mem_iff.mp (List.mem_map_of_mem member)
  obtain ⟨kvLayer, inPass, task, -, same⟩ := mem_storesOf_iff.mp issued
  rw [ArrivedStore.call, AsyncCall.store.injEq] at same
  exact ⟨kvLayer, inPass, same.2.1.symm⟩

/-- Every layer repeats the keys of the tasks, so only one can be saved under them. -/
theorem nodup_keys_iff
    (reach : (order.map ArrivedStore.call).Perm (storesOf modelId saves layers)) :
    (order.map (ArrivedStore.key platform)).Nodup ↔ saves = [] ∨ layers = [] ∨
      layers.length = 1 ∧ (saves.map (SaveTask.key platform modelId)).Nodup := by
  have keys : (order.map (ArrivedStore.key platform)).Perm
      (layers.flatMap fun _ => saves.map (SaveTask.key platform modelId)) := by
    have mapped := reach.map (AsyncCall.indexKey platform)
    simp only [storesOf, List.map_flatMap, List.map_map] at mapped
    exact mapped
  rw [keys.nodup_iff]
  cases saves with
  | nil =>
      have nothing : (layers.flatMap fun _ => ([] : List PrefixHash)) = [] :=
        List.flatMap_eq_nil_iff.mpr fun _ _ => rfl
      simp [nothing]
  | cons task others =>
      cases layers with
      | nil => simp
      | cons first rest => cases rest <;> simp [List.nodup_append]

/-- Layers whose lengths fit the `u32` of a header are kept exactly when there is one for
the keys. -/
theorem kept_iff_of_short {connector : CmxRdmaConnector} (idle : connector.currentMeta = none)
    {pass : ForwardPass}
    (short : ∀ kvLayer ∈ savedLayers pass.layerCalls, kvLayer.data.length < 2 ^ 32)
    {service : CacheService} (firstPool : service.allocator.pool.geometry.poolId = 0)
    (freeNodup : service.allocator.pool.freeList.Nodup)
    (reach : (order.map ArrivedStore.call).Perm (connector.runPass pass).2)
    (succeed : Allows (next (ArrivedStore.serve platform)) (ArrivedStore.Succeeds platform)
      service order)
    (holdsAll : ∀ arrived ∈ order,
      arrived.key platform ∈ (ArrivedStore.served platform service order).index.map) :
    (∀ kvLayer ∈ savedLayers pass.layerCalls,
        Held platform (ArrivedStore.served platform service order) kvLayer.data) ∧
      ArrivedStore.NoneReplaced platform service order ↔
    pass.OneLayer platform connector.modelId service := by
  rw [(CmxRdmaConnector.runPass_spec idle pass).2.2] at reach
  have shortStores (arrived : ArrivedStore) (member : arrived ∈ order) :
      arrived.data.length < 2 ^ 32 := by
    obtain ⟨kvLayer, inPass, same⟩ := data_of_mem reach member
    exact same ▸ short kvLayer inPass
  -- without a task or a layer the agent stays as it was
  have nothingReached (idlePass : tasksOf pass.taken = [] ∨ savedLayers pass.layerCalls = []) :
      order = [] := by
    rw [(storesOf_eq_nil_iff ..).mpr idlePass] at reach
    exact List.map_eq_nil_iff.mp reach.eq_nil
  rw [ArrivedStore.noneReplaced_iff freeNodup succeed shortStores holdsAll, nodup_keys_iff reach]
  constructor
  · rintro ⟨held, noTask | noLayer | ⟨single, apart⟩⟩
    · rw [nothingReached (.inl noTask)] at held
      exact .inr (.inl ⟨noTask, held⟩)
    · exact .inl noLayer
    · by_cases noTask : tasksOf pass.taken = []
      · rw [nothingReached (.inl noTask)] at held
        exact .inr (.inl ⟨noTask, held⟩)
      · exact .inr (.inr ⟨single, noTask, apart, short⟩)
  · rintro (noLayer | ⟨noTask, held⟩ | ⟨single, someTask, apart, -⟩)
    · exact ⟨by simp [noLayer], .inr (.inl noLayer)⟩
    · rw [nothingReached (.inl noTask)]
      exact ⟨held, .inl noTask⟩
    · refine ⟨fun kvLayer inPass => ?_, .inr (.inr ⟨single, apart⟩)⟩
      obtain ⟨task, scheduled⟩ := List.exists_mem_of_ne_nil _ someTask
      obtain ⟨arrived, member, same⟩ := List.mem_map.mp
        (reach.mem_iff.mpr (mem_storesOf_iff.mpr ⟨kvLayer, inPass, task, scheduled, rfl⟩))
      rw [ArrivedStore.call, AsyncCall.store.injEq] at same
      rw [← same.2.1]
      exact ⟨_, ArrivedStore.get_served_of_nodup firstPool freeNodup succeed shortStores holdsAll
        ((nodup_keys_iff reach).mpr (.inr (.inr ⟨single, apart⟩))) member⟩

end Pass

/-- Whatever Stores a pass between passes issues and in whatever order they reach an
agent whose index holds them all, the agent holds the bytes of every layer afterwards
and no Store has replaced the entry of another if and only if the pass saves no layer,
saves one layer of less than `2 ^ 32` bytes under distinct keys, or has no task and found
its layers held. Where a layer is longer, the agent's entries have one block each: a Store
makes no other, and only several blocks together can hold more. -/
theorem layers_kept_iff (platform : Platform) (connector : CmxRdmaConnector)
    (idle : connector.currentMeta = none) (pass : ForwardPass)
    (service : CacheService) (firstPool : service.allocator.pool.geometry.poolId = 0)
    (freeNodup : service.allocator.pool.freeList.Nodup)
    (shortOrSingle : (∀ kvLayer ∈ savedLayers pass.layerCalls, kvLayer.data.length < 2 ^ 32) ∨
      ∀ key entry, service.index.map.lookup key = some entry →
        ∃ location, entry.blocks = [location])
    (order : List ArrivedStore)
    (reach : (order.map ArrivedStore.call).Perm (connector.runPass pass).2)
    (succeed : Allows (next (ArrivedStore.serve platform)) (ArrivedStore.Succeeds platform)
      service order)
    (holdsAll : ∀ arrived ∈ order,
      arrived.key platform ∈ (ArrivedStore.served platform service order).index.map) :
    (∀ kvLayer ∈ savedLayers pass.layerCalls,
        Held platform (ArrivedStore.served platform service order) kvLayer.data) ∧
      ArrivedStore.NoneReplaced platform service order ↔
    pass.OneLayer platform connector.modelId service := by
  rcases shortOrSingle with short | single
  · exact kept_iff_of_short idle short firstPool freeNodup reach succeed holdsAll
  constructor
  · rintro ⟨held, noneReplaced⟩
    have short : ∀ kvLayer ∈ savedLayers pass.layerCalls, kvLayer.data.length < 2 ^ 32 := by
      intro kvLayer inPass
      obtain ⟨key, read⟩ := held kvLayer inPass
      exact AsyncCmxClient.length_lt_of_get (ArrivedStore.single_served single succeed) read
    exact (kept_iff_of_short idle short firstPool freeNodup reach succeed holdsAll).mp
      ⟨held, noneReplaced⟩
  · intro oneLayer
    have short : ∀ kvLayer ∈ savedLayers pass.layerCalls, kvLayer.data.length < 2 ^ 32 := by
      intro kvLayer inPass
      rcases oneLayer with noLayer | ⟨-, held⟩ | ⟨-, -, -, short⟩
      · rw [noLayer] at inPass
        exact absurd inPass List.not_mem_nil
      · obtain ⟨key, read⟩ := held kvLayer inPass
        exact AsyncCmxClient.length_lt_of_get single read
      · exact short kvLayer inPass
    exact (kept_iff_of_short idle short firstPool freeNodup reach succeed holdsAll).mpr oneLayer

/-- One layer saved under two keys is held, the Stores arriving in the other order. -/
theorem layers_kept_iff_of_one_layer :
    let connectorMeta : ConnectorMeta :=
      ⟨[⟨.ofByte 9, [], 16⟩], [⟨.ofByte 7, [], 16⟩, ⟨.ofByte 8, [], 16⟩]⟩
    let pass : ForwardPass :=
      ⟨.object (some connectorMeta), [.saveKvLayer "layer_0" (.bytes [1])]⟩
    let service := CacheService.new Geometry.twoBlocks 2 "node" false none
    let order : List ArrivedStore := [⟨0, .ofByte 8, [1], ""⟩, ⟨0, .ofByte 7, [1], ""⟩]
    (order.map ArrivedStore.call).Perm (CmxRdmaConnector.runPass (.new "") pass).2 ∧
      Held Platform.release (ArrivedStore.served Platform.release service order) [1] ∧
      ArrivedStore.NoneReplaced Platform.release service order := by
  intro connectorMeta pass service order
  have reach : (order.map ArrivedStore.call).Perm (CmxRdmaConnector.runPass (.new "") pass).2 := by
    decide +kernel
  have single : ∀ key entry, service.index.map.lookup key = some entry →
      ∃ location, entry.blocks = [location] := by
    intro key entry found
    cases found
  have kept := (layers_kept_iff Platform.release (.new "") rfl pass service rfl
    (by decide +kernel) (.inr single) order reach (by decide +kernel) (by decide +kernel)).mpr
    (.inr (.inr (by decide +kernel)))
  exact ⟨reach, kept.1 (.bytes [1]) (by decide), kept.2⟩

/-- Two layers of one pass with one task: the bytes of the first are gone. -/
theorem second_layer_replaces_first :
    let connectorMeta : ConnectorMeta := ⟨[⟨.ofByte 9, [], 16⟩], [⟨.ofByte 7, [], 16⟩]⟩
    let pass : ForwardPass := ⟨.object (some connectorMeta),
      [.saveKvLayer "layer_0" (.bytes [1]), .saveKvLayer "layer_1" (.bytes [2])]⟩
    let service := CacheService.new Geometry.twoBlocks 2 "node" false none
    let order : List ArrivedStore := [⟨0, .ofByte 7, [1], ""⟩, ⟨0, .ofByte 7, [2], ""⟩]
    let after := ArrivedStore.served Platform.release service order
    order.map ArrivedStore.call = (CmxRdmaConnector.runPass (.new "") pass).2 ∧
      Allows (next (ArrivedStore.serve Platform.release)) (ArrivedStore.Succeeds Platform.release)
        service order ∧
      (∀ arrived ∈ order, arrived.key Platform.release ∈ after.index.map) ∧
      ¬ Held Platform.release after [1] := by
  intro connectorMeta pass service order after
  refine ⟨by decide +kernel, by decide +kernel, by decide +kernel, ?_⟩
  have keys : after.index.map.keys = [.ofByte 7] := by decide +kernel
  have second : (AsyncCmxClient.get Platform.release after (.ofByte 7) "").2 = .ok (some [2]) := by
    decide +kernel
  rintro ⟨key, read⟩
  by_cases same : key = .ofByte 7
  · rw [same, second] at read
    exact absurd read (by decide)
  · have absent : after.index.map.lookup key = none := by
      rw [AList.lookup_eq_none, AList.mem_keys, keys, List.mem_singleton]
      exact same
    rw [AsyncCmxClient.get_of_absent absent] at read
    exact absurd read (by decide)

end CmxRdma.Client
