import CmxRdma.Agent.Interleaving
import CmxRdma.Agent.Metadata

/-!
Contract: one agent that publishes the blocks it stores.

Owns: the publish tasks a Store spawns after its index insert, their puts in any
order among the steps of the agent and the changes of other nodes, under the agent's
lease if it was granted one, which task's put an etcd record shows, and what is left
in the index of a key whose record names the agent.

Does not own: who reads the records; see `Cluster`. The agent has a metadata
client. A put of a block of this node is made by a publish task only, and reads the
lease id in the same step: `main` registers the node before it serves.
-/

namespace CmxRdma.Agent

open CmxRdma.BlockStore
open CmxRdma.Lib.LeasedStore
open CmxRdma.Lib.Transition
open CmxRdma.Memory

/-- The task of a Store that has inserted its location. -/
def PendingStore.task (pending : PendingStore) : PublishTask where
  prefixHash := pending.key
  offset := pending.location.offset
  size := pending.location.blockSize
  generation := pending.location.generation

/-- The handler spawns the task of its Store. -/
theorem publishTasks_storeCommit {service : CacheService} (enabled : service.metadata = true)
    (pending : PendingStore) (now : UInt64) :
    (service.storeCommit pending.key pending.location now).1.publishTasks =
      service.publishTasks ++ [pending.task] := by
  simp only [CacheService.storeCommit, enabled, if_true]
  rfl

namespace PublishTask

/-- The record the task puts. -/
def record (nodeId nodeAddr : String) (task : PublishTask) : BlockLocationMeta where
  nodeId := nodeId
  nodeAddr := nodeAddr
  offset := task.offset
  size := task.size
  generation := task.generation

def op (nodeId nodeAddr : String) (lease : Option Nat) (task : PublishTask) : EtcdOp :=
  .put task.prefixHash (task.record nodeId nodeAddr) lease

/-- The put of a task is what `publish_block` asks etcd for. -/
theorem change_op (client : MetadataClient) (task : PublishTask) :
    (task.op client.nodeId client.nodeAddr client.leaseId).change =
      client.publishBlock task.prefixHash task.offset task.size task.generation := rfl

@[simp] theorem nodeId_record (nodeId nodeAddr : String) (task : PublishTask) :
    (task.record nodeId nodeAddr).nodeId = nodeId := rfl

end PublishTask

/-- An agent with the lease id of its metadata client, etcd, the tasks that have not put
yet, and the history of tasks. -/
structure Publisher where
  system : System
  lease : Option Nat
  etcd : Etcd
  tasks : List PublishTask
  spawned : List PublishTask

/-- A step of the agent; the lease `register_node` is granted; the put of a task, or its
failure, which is only logged; and a change of etcd that is not a put of this node. -/
inductive PublisherAction where
  | agent (action : Action)
  | grant
  | publish (position : Nat)
  | fail (position : Nat)
  | etcd (op : EtcdOp)

namespace Publisher

def new (geometry : Geometry) (capacity : Nat) : Publisher where
  system := System.new geometry 0 capacity
  lease := none
  etcd := Etcd.new
  tasks := []
  spawned := []

/-- The tasks a step of the agent spawns. -/
def spawns (system : System) : Action → List PublishTask
  | .storeInsert position _ => (system.stores[position]?.map PendingStore.task).toList
  | _ => []

theorem mem_spawns {system : System} {action : Action} {task : PublishTask} :
    task ∈ spawns system action ↔
      ∃ position now pending, action = .storeInsert position now ∧
        system.stores[position]? = some pending ∧ pending.task = task := by
  constructor
  · intro member
    cases action with
    | storeInsert position now =>
        obtain ⟨pending, selected, isTask⟩ :=
          Option.map_eq_some_iff.mp (Option.mem_toList.mp member)
        exact ⟨position, now, pending, rfl, selected, isTask⟩
    | _ => exact absurd member List.not_mem_nil
  · rintro ⟨position, now, pending, rfl, selected, rfl⟩
    simp [spawns, selected]

variable (platform : Platform) (nodeId nodeAddr : String)

/-- The change of etcd a step asks for. A put of a block of this node is left to its
tasks. -/
def change (publisher : Publisher) : PublisherAction → Option EtcdOp
  | .agent _ => none
  | .grant => some .grant
  | .publish position =>
      publisher.tasks[position]?.map (PublishTask.op nodeId nodeAddr publisher.lease)
  | .fail _ => none
  | .etcd (.put prefixHash value lease) =>
      if value.nodeId = nodeId then none else some (.put prefixHash value lease)
  | .etcd op => some op

def step (publisher : Publisher) (action : PublisherAction) : Publisher where
  system :=
    match action with
    | .agent action => publisher.system.step platform action
    | _ => publisher.system
  lease :=
    match action with
    | .grant => some publisher.etcd.store.granted
    | _ => publisher.lease
  etcd :=
    match publisher.change nodeId nodeAddr action with
    | some op => publisher.etcd.apply op
    | none => publisher.etcd
  tasks :=
    match action with
    | .agent action => publisher.tasks ++ spawns publisher.system action
    | .publish position => publisher.tasks.eraseIdx position
    | .fail position => publisher.tasks.eraseIdx position
    | _ => publisher.tasks
  spawned :=
    match action with
    | .agent action => publisher.spawned ++ spawns publisher.system action
    | _ => publisher.spawned

/-! ## The record under a key -/

/-- etcd takes a put of the key, by this node or another. -/
def Puts (key : PrefixHash) (publisher : Publisher) (action : PublisherAction) : Prop :=
  ∃ value lease, publisher.change nodeId nodeAddr action = some (.put key value lease) ∧
    publisher.etcd.Accepts lease

/-- The lease ends. -/
def Ends (lease : Nat) (publisher : Publisher) (action : PublisherAction) : Prop :=
  publisher.change nodeId nodeAddr action = some (.finish lease)

/-- The steps after which a block key has another record or none: a put of the key, or
the end of the lease it is bound to. -/
def Overwrites (key : PrefixHash) (publisher : Publisher) (action : PublisherAction) : Prop :=
  publisher.Puts nodeId nodeAddr key action ∨
    ∃ lease ∈ publisher.etcd.leaseOf key, publisher.Ends nodeId nodeAddr lease action

variable {platform nodeId nodeAddr} {publisher : Publisher}

/-- A put is made by a task of this node, or is another node's. -/
theorem change_eq_put {action : PublisherAction} {key : PrefixHash} {value : BlockLocationMeta}
    {lease : Option Nat} :
    publisher.change nodeId nodeAddr action = some (.put key value lease) ↔
      (∃ position task, action = .publish position ∧ publisher.tasks[position]? = some task ∧
          task.prefixHash = key ∧ task.record nodeId nodeAddr = value ∧
          publisher.lease = lease) ∨
        action = .etcd (.put key value lease) ∧ value.nodeId ≠ nodeId := by
  constructor
  · intro changes
    cases action with
    | agent action => cases changes
    | grant => cases changes
    | fail position => cases changes
    | publish position =>
        obtain ⟨task, selected, isPut⟩ := Option.map_eq_some_iff.mp changes
        exact Or.inl ⟨position, task, rfl, selected, EtcdOp.put.inj isPut⟩
    | etcd op =>
        cases op with
        | put putHash other otherLease =>
            simp only [change] at changes
            split_ifs at changes with isOurs
            cases changes
            exact Or.inr ⟨rfl, isOurs⟩
        | grant => cases changes
        | putNode info lease => cases changes
        | finish lease => cases changes
  · rintro (⟨position, task, rfl, selected, rfl, rfl, rfl⟩ | ⟨rfl, foreign⟩)
    · rw [change, selected, Option.map_some, PublishTask.op]
    · exact if_neg foreign

theorem overwrites_iff {key : PrefixHash} {action : PublisherAction} :
    publisher.Overwrites nodeId nodeAddr key action ↔
      ∃ op ∈ publisher.change nodeId nodeAddr action, publisher.etcd.Overwrites key op := by
  constructor
  · rintro (⟨value, lease, puts, accepted⟩ | ⟨lease, bound, ends⟩)
    · exact ⟨_, puts, rfl, accepted⟩
    · exact ⟨_, ends, bound⟩
  · rintro ⟨op, changes, overwrites⟩
    cases op with
    | grant => exact overwrites.elim
    | putNode info lease => exact overwrites.elim
    | put putHash value lease =>
        obtain ⟨rfl, accepted⟩ := overwrites
        exact Or.inl ⟨value, lease, changes, accepted⟩
    | finish lease => exact Or.inr ⟨lease, overwrites, changes⟩

/-- A record of this node is put by one of its tasks, under the lease of the agent. -/
theorem blockRecord_step {key : PrefixHash} {record : Leased BlockLocationMeta}
    (ours : record.value.nodeId = nodeId) (action : PublisherAction) :
    (publisher.step platform nodeId nodeAddr action).etcd.blockRecord key = some record ↔
      (∃ position task, action = .publish position ∧ publisher.tasks[position]? = some task ∧
          task.prefixHash = key ∧ record = ⟨task.record nodeId nodeAddr, publisher.lease⟩ ∧
          publisher.etcd.Accepts publisher.lease) ∨
        publisher.etcd.blockRecord key = some record ∧
          ¬ publisher.Overwrites nodeId nodeAddr key action := by
  rw [overwrites_iff]
  simp only [step]
  cases changeEq : publisher.change nodeId nodeAddr action with
  | none =>
      simp only [Option.not_mem_none, false_and, exists_false, not_false_iff, and_true]
      constructor
      · exact Or.inr
      · rintro (⟨position, task, rfl, selected, -⟩ | old)
        · rw [change, selected] at changeEq
          exact absurd changeEq nofun
        · exact old
  | some op =>
      simp only [Option.mem_some_iff, exists_eq_left', Etcd.blockRecord_apply]
      refine or_congr ?_ Iff.rfl
      constructor
      · rintro ⟨rfl, accepted⟩
        rcases change_eq_put.mp changeEq with
          ⟨position, task, isPublish, selected, isKey, sameValue, sameLease⟩ | ⟨-, foreign⟩
        · have isRecord : record = ⟨task.record nodeId nodeAddr, publisher.lease⟩ := by
            rw [sameValue, sameLease]
          exact ⟨position, task, isPublish, selected, isKey, isRecord, sameLease ▸ accepted⟩
        · exact absurd ours foreign
      · rintro ⟨position, task, rfl, selected, rfl, rfl, accepted⟩
        have puts := (@change_eq_put nodeId nodeAddr publisher _ _ _ _).mpr
          (Or.inl ⟨position, task, rfl, selected, rfl, rfl, rfl⟩)
        exact ⟨Option.some.inj (changeEq.symm.trans puts), accepted⟩

/-- The history of a record of this node: one of its tasks put it and nothing has
overwritten it since. -/
theorem blockRecord_run {geometry : Geometry} {capacity : Nat} {key : PrefixHash}
    {record : Leased BlockLocationMeta} (ours : record.value.nodeId = nodeId)
    (actions : List PublisherAction) :
    (run (step platform nodeId nodeAddr) (new geometry capacity) actions).etcd.blockRecord key =
        some record ↔
      ∃ before position task after, actions = before ++ .publish position :: after ∧
        (run (step platform nodeId nodeAddr) (new geometry capacity) before).tasks[position]? =
          some task ∧
        task.prefixHash = key ∧
        record = ⟨task.record nodeId nodeAddr,
          (run (step platform nodeId nodeAddr) (new geometry capacity) before).lease⟩ ∧
        (run (step platform nodeId nodeAddr) (new geometry capacity) before).etcd.Accepts
          (run (step platform nodeId nodeAddr) (new geometry capacity) before).lease ∧
        Allows (step platform nodeId nodeAddr)
          (fun publisher action => ¬ publisher.Overwrites nodeId nodeAddr key action)
          (run (step platform nodeId nodeAddr) (new geometry capacity)
            (before ++ [.publish position])) after := by
  have history := @run_holds_iff _ _ _
    (fun publisher : Publisher => publisher.etcd.blockRecord key = some record) _ _
    (fun publisher action => @blockRecord_step platform nodeId nodeAddr publisher key record ours
      action) (new geometry capacity) actions
  refine history.trans ⟨?_, ?_⟩
  · rintro (⟨initially, -⟩ | ⟨before, action, after, split, ⟨position, task, rfl, selected, isKey,
      isRecord, accepted⟩, kept⟩)
    · exact absurd initially nofun
    · exact ⟨before, position, task, after, split, selected, isKey, isRecord, accepted, kept⟩
  · rintro ⟨before, position, task, after, split, selected, isKey, isRecord, accepted, kept⟩
    exact Or.inr ⟨before, _, after, split,
      ⟨position, task, rfl, selected, isKey, isRecord, accepted⟩, kept⟩

/-- Nothing withdraws a record: it stays until etcd takes another put of its key, or the
lease it was put under ends, if it was put under one. -/
theorem blockRecord_stays {key : PrefixHash} {record : Leased BlockLocationMeta}
    (found : publisher.etcd.blockRecord key = some record) {later : List PublisherAction}
    (undisturbed : Allows (step platform nodeId nodeAddr)
      (fun publisher action => ¬ publisher.Puts nodeId nodeAddr key action ∧
        ∀ lease ∈ record.lease, ¬ publisher.Ends nodeId nodeAddr lease action) publisher later) :
    (run (step platform nodeId nodeAddr) publisher later).etcd.blockRecord key = some record := by
  refine @run_invariant_of_allows _ _ _ _ (fun publisher : Publisher =>
    publisher.etcd.blockRecord key = some record) ?_ _ found _ undisturbed
  rintro publisher action ⟨notPut, notEnded⟩ present
  have kept : ¬ publisher.Overwrites nodeId nodeAddr key action := by
    rintro (puts | ⟨lease, bound, ends⟩)
    · exact notPut puts
    · rw [Etcd.leaseOf, present] at bound
      exact notEnded lease bound ends
  rw [overwrites_iff] at kept
  simp only [step]
  cases changes : publisher.change nodeId nodeAddr action with
  | none => exact present
  | some op =>
      exact Etcd.blockRecord_apply.mpr
        (Or.inr ⟨present, fun overwrites => kept ⟨op, changes, overwrites⟩⟩)

/-- Every task that waits was spawned. -/
theorem mem_spawned_of_mem_tasks {geometry : Geometry} {capacity : Nat}
    (actions : List PublisherAction) :
    ∀ task ∈ (run (step platform nodeId nodeAddr) (new geometry capacity) actions).tasks,
      task ∈ (run (step platform nodeId nodeAddr) (new geometry capacity) actions).spawned := by
  refine @run_invariant _ _ _
    (fun publisher : Publisher => ∀ task ∈ publisher.tasks, task ∈ publisher.spawned) ?_ _ ?_
    actions
  case refine_2 => exact fun task member => absurd member List.not_mem_nil
  intro publisher action known task member
  cases action with
  | agent action =>
      rcases List.mem_append.mp member with old | new
      · exact List.mem_append_left _ (known task old)
      · exact List.mem_append_right _ new
  | publish position => exact known task (List.mem_of_mem_eraseIdx member)
  | fail position => exact known task (List.mem_of_mem_eraseIdx member)
  | grant => exact known task member
  | etcd op => exact known task member

/-- The history of tasks only grows. -/
theorem spawned_subset_run (start : Publisher) (actions : List PublisherAction) :
    start.spawned ⊆ (run (step platform nodeId nodeAddr) start actions).spawned := by
  refine @run_invariant _ _ _ (fun publisher : Publisher => start.spawned ⊆ publisher.spawned) ?_ _
    (List.Subset.refl _) actions
  intro publisher action known
  cases action with
  | agent action => exact List.Subset.trans known (List.subset_append_left _ _)
  | _ => exact known

/-- No task of the key has a larger generation. -/
def Latest (publisher : Publisher) (task : PublishTask) : Prop :=
  ∀ other ∈ publisher.spawned, other.prefixHash = task.prefixHash →
    other.generation ≤ task.generation

/-- The record of a key carries the Store with the largest generation exactly when a
task with that generation has put, without a lease or under one that was live, and
nothing has overwritten the record since. -/
theorem published_is_latest_iff (platform : Platform) (nodeId nodeAddr : String)
    (geometry : Geometry) (capacity : Nat) (actions : List PublisherAction) (key : PrefixHash) :
    (∃ latest ∈ (run (step platform nodeId nodeAddr) (new geometry capacity) actions).spawned,
        latest.prefixHash = key ∧
        (run (step platform nodeId nodeAddr) (new geometry capacity) actions).Latest latest ∧
        ∃ lease, (run (step platform nodeId nodeAddr) (new geometry capacity)
          actions).etcd.blockRecord key = some ⟨latest.record nodeId nodeAddr, lease⟩) ↔
      ∃ before position task after, actions = before ++ .publish position :: after ∧
        (run (step platform nodeId nodeAddr) (new geometry capacity) before).tasks[position]? =
          some task ∧
        task.prefixHash = key ∧
        (run (step platform nodeId nodeAddr) (new geometry capacity) actions).Latest task ∧
        (run (step platform nodeId nodeAddr) (new geometry capacity) before).etcd.Accepts
          (run (step platform nodeId nodeAddr) (new geometry capacity) before).lease ∧
        Allows (step platform nodeId nodeAddr)
          (fun publisher action => ¬ publisher.Overwrites nodeId nodeAddr key action)
          (run (step platform nodeId nodeAddr) (new geometry capacity)
            (before ++ [.publish position])) after := by
  constructor
  · rintro ⟨latest, -, isKey, largest, lease, found⟩
    obtain ⟨before, position, task, after, split, selected, taskKey, sameRecord, accepted, kept⟩ :=
      (blockRecord_run (latest.nodeId_record nodeId nodeAddr) actions).mp found
    have sameGeneration : latest.generation = task.generation :=
      congrArg (fun record => record.value.generation) sameRecord
    refine ⟨before, position, task, after, split, selected, taskKey, ?_, accepted, kept⟩
    intro other member sameKey
    rw [← sameGeneration]
    exact largest other member (sameKey.trans (taskKey.trans isKey.symm))
  · rintro ⟨before, position, task, after, rfl, selected, isKey, largest, accepted, kept⟩
    have spawnedBefore := mem_spawned_of_mem_tasks before task (List.mem_of_getElem? selected)
    refine ⟨task, ?_, isKey, largest, _,
      (blockRecord_run (task.nodeId_record nodeId nodeAddr) _).mpr
        ⟨before, position, task, after, rfl, selected, isKey, rfl, accepted, kept⟩⟩
    rw [run_append]
    exact spawned_subset_run _ _ spawnedBefore

/-- The steps of `register_node` of the agent. -/
def registered (nodeId : String) (lease : Nat) : List PublisherAction :=
  [.grant, .etcd (.putNode ⟨nodeId, nodeId ++ ":50051"⟩ (some lease))]

/-- Two Stores of one key whose tasks put in the other order leave the location of
the first, which the index does not hold any more. -/
theorem published_is_older :
    let key := PrefixHash.ofByte 7
    let final := run (step Platform.release "a" "a:50051") (new Geometry.twoBlocks 2)
      (registered "a" 0 ++
        [.agent (.storeWrite key [1]), .agent (.storeInsert 0 0),
          .agent (.storeWrite key [2]), .agent (.storeInsert 0 0),
          .publish 1, .publish 0])
    final.tasks = [] ∧ final.spawned = [⟨key, 32, 32, 1⟩, ⟨key, 0, 32, 2⟩] ∧
      final.etcd.blockRecord key = some ⟨⟨"a", "a:50051", 32, 32, 1⟩, some 0⟩ := by
  decide +kernel

end Publisher

/-! ## The block behind a record -/

namespace Publisher

variable {platform : Platform} {nodeId nodeAddr : String}

/-- The step of the agent inserts an entry under a key. -/
def Inserts (key : PrefixHash) (publisher : Publisher) : PublisherAction → Prop
  | .agent action => publisher.system.Inserts key action
  | _ => False

/-- The step of the agent takes the entry of a key out of the index. -/
def Removes (key : PrefixHash) (publisher : Publisher) : PublisherAction → Prop
  | .agent action => publisher.system.Removes key action
  | _ => False

theorem notMem_index_step (key : PrefixHash) (publisher : Publisher) (action : PublisherAction) :
    key ∉ (publisher.step platform nodeId nodeAddr action).system.index.map ↔
      publisher.Removes key action ∨
        key ∉ publisher.system.index.map ∧ ¬ publisher.Inserts key action := by
  cases action with
  | agent action => exact System.notMem_index_step platform publisher.system key action
  | _ => simp [step, Removes, Inserts]

/-- Nothing was published under a key, and nothing waits to be. -/
def Unpublished (nodeId : String) (key : PrefixHash) (publisher : Publisher) : Prop :=
  (∀ task ∈ publisher.tasks, task.prefixHash ≠ key) ∧
    ∀ record, publisher.etcd.blockRecord key = some record → record.value.nodeId ≠ nodeId

/-- A key that was never inserted is not published. -/
theorem unpublished_of_never_inserted {geometry : Geometry} {capacity : Nat} {key : PrefixHash}
    {actions : List PublisherAction}
    (never : Allows (step platform nodeId nodeAddr)
      (fun publisher action => ¬ publisher.Inserts key action) (new geometry capacity) actions) :
    (run (step platform nodeId nodeAddr) (new geometry capacity) actions).Unpublished nodeId
      key := by
  refine run_invariant_of_allows ?_ ⟨fun task member => absurd member List.not_mem_nil, nofun⟩ never
  rintro publisher action notInserted ⟨noTask, noRecord⟩
  constructor
  · intro task member
    cases action with
    | agent action =>
        rcases List.mem_append.mp member with old | new
        · exact noTask task old
        · rintro rfl
          obtain ⟨position, now, pending, rfl, selected, rfl⟩ := mem_spawns.mp new
          exact notInserted ⟨pending, selected, rfl⟩
    | publish position => exact noTask task (List.mem_of_mem_eraseIdx member)
    | fail position => exact noTask task (List.mem_of_mem_eraseIdx member)
    | grant => exact noTask task member
    | etcd op => exact noTask task member
  · intro record found ours
    rcases (blockRecord_step ours action).mp found with
      ⟨position, task, -, selected, isKey, -, -⟩ | ⟨old, -⟩
    · exact noTask task (List.mem_of_getElem? selected) isKey
    · exact noRecord record old ours

/-- A record that names this node is of a key the node has inserted. The key is missing
in its index exactly when a Delete or an eviction has taken it out since it was inserted
last. The record stays all the same: whatever steps follow, until etcd takes another put
of the key or the lease it was put under ends. A record put without a lease stays until
another put. -/
theorem published_key_absent_iff (platform : Platform) (nodeId nodeAddr : String)
    (geometry : Geometry) (capacity : Nat) (actions : List PublisherAction) (key : PrefixHash)
    (record : Leased BlockLocationMeta)
    (published : (run (step platform nodeId nodeAddr) (new geometry capacity)
      actions).etcd.blockRecord key = some record)
    (ours : record.value.nodeId = nodeId) :
    let step := step platform nodeId nodeAddr
    let start := new geometry capacity
    (∃ before action after, actions = before ++ action :: after ∧
      (run step start before).Inserts key action) ∧
    (key ∉ (run step start actions).system.index.map ↔
      ∃ before action after, actions = before ++ action :: after ∧
        (run step start before).Removes key action ∧
        Allows step (fun publisher action => ¬ publisher.Inserts key action)
          (run step start (before ++ [action])) after) ∧
    ∀ later, Allows step (fun publisher action => ¬ publisher.Puts nodeId nodeAddr key action ∧
        ∀ lease ∈ record.lease, ¬ publisher.Ends nodeId nodeAddr lease action)
        (run step start actions) later →
      (run step (run step start actions) later).etcd.blockRecord key = some record := by
  intro step start
  have inserted : ¬ Allows step (fun publisher action => ¬ publisher.Inserts key action) start
      actions :=
    fun never => (unpublished_of_never_inserted never).2 record published ours
  refine ⟨?_, ?_, fun later => blockRecord_stays published⟩
  · obtain ⟨before, action, after, split, inserts⟩ := exists_of_not_allows inserted
    exact ⟨before, action, after, split, not_not.mp inserts⟩
  · have history := @run_holds_iff _ _ _ (fun publisher : Publisher =>
      key ∉ publisher.system.index.map) _ _
      (@notMem_index_step platform nodeId nodeAddr key) start actions
    exact history.trans (or_iff_right fun never => inserted never.2)

/-- A node stores a block, publishes it and deletes it. -/
def storeThenDelete : List PublisherAction :=
  registered "a" 0 ++
    [.agent (.storeWrite (.ofByte 7) [1]), .agent (.storeInsert 0 0), .publish 0,
      .agent (.deleteRemove (.ofByte 7)), .agent (.deleteFree 0), .agent (.deleteFree 0)]

/-- The block is free again, nothing is pending, and etcd still names the node. -/
theorem record_outlives_block :
    let final := run (step Platform.release "a" "a:50051") (new Geometry.twoBlocks 2)
      storeThenDelete
    final.system.stores = [] ∧ final.system.deletes = [] ∧ final.tasks = [] ∧
      final.system.index.map.entries = [] ∧ final.system.allocator.pool.freeList.length = 2 ∧
      final.etcd.blockRecord (.ofByte 7) = some ⟨⟨"a", "a:50051", 32, 32, 1⟩, some 0⟩ := by
  decide +kernel

/-- The Delete of that run is what took the key out, and the record is still there after
the node has stored and published another block. -/
theorem published_key_absent_iff_of_delete :
    let step := step Platform.release "a" "a:50051"
    let start := new Geometry.twoBlocks 2
    let final := run step start storeThenDelete
    let later : List PublisherAction :=
      [.agent (.storeWrite (.ofByte 8) [2]), .agent (.storeInsert 0 0), .publish 0]
    PrefixHash.ofByte 7 ∉ final.system.index.map ∧
      (∃ before action after, storeThenDelete = before ++ action :: after ∧
        (run step start before).Removes (.ofByte 7) action ∧
        Allows step (fun publisher action => ¬ publisher.Inserts (.ofByte 7) action)
          (run step start (before ++ [action])) after) ∧
      (run step final later).etcd.blockRecord (.ofByte 7) =
        some ⟨⟨"a", "a:50051", 32, 32, 1⟩, some 0⟩ := by
  intro step start final later
  have absent : PrefixHash.ofByte 7 ∉ final.system.index.map := by decide +kernel
  have published : final.etcd.blockRecord (.ofByte 7) =
      some ⟨⟨"a", "a:50051", 32, 32, 1⟩, some 0⟩ := by
    decide +kernel
  obtain ⟨-, taken, stays⟩ := published_key_absent_iff Platform.release "a" "a:50051"
    Geometry.twoBlocks 2 storeThenDelete (.ofByte 7) _ published rfl
  refine ⟨absent, taken.mp absent, stays later ?_⟩
  -- of the three steps only the last changes etcd, and it puts another key
  have another : (run step final [.agent (.storeWrite (.ofByte 8) [2]),
      .agent (.storeInsert 0 0)]).change "a" "a:50051" (.publish 0) =
        some (.put (.ofByte 8) ⟨"a", "a:50051", 32, 32, 2⟩ (some 0)) := by
    decide +kernel
  refine ⟨⟨?_, ?_⟩, ⟨?_, ?_⟩, ⟨?_, ?_⟩, trivial⟩
  · rintro ⟨value, lease, ⟨⟩, -⟩
  · rintro lease - ⟨⟩
  · rintro ⟨value, lease, ⟨⟩, -⟩
  · rintro lease - ⟨⟩
  · rintro ⟨value, lease, puts, -⟩
    cases another.symm.trans puts
  · intro lease _ ends
    cases another.symm.trans ends

end Publisher

end CmxRdma.Agent
