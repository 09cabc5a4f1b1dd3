import CmxRdma.Agent.CrossKeyRead
import CmxRdma.Agent.SelfLookup

/-!
Contract: all nodes of a deployment together, from the blocks in their memory to the
answers about blocks on other nodes.

Owns: the nodes as one system: requests in flight and publish tasks at every node, one
etcd, the watches of every node, leases that end and new processes; where a location that
a Lookup gives for another node comes from, and when comparing its generation with the
block is enough to know the bytes.

Does not own: transfers between nodes, which the agents do not make.
-/

namespace CmxRdma.Agent

open CmxRdma.BlockStore
open CmxRdma.Lib.Transition
open CmxRdma.Memory
open CmxRdma.Proto

/-! ## Model -/

/-- How the nodes are configured. -/
structure Deployment where
  geometry : String → Geometry
  capacity : String → Nat
  nodeAddr : String → String
  vnodesPerNode : UInt32

/-- The process of a node: its requests in flight, the lease it was granted, if any, and
the publish tasks that have not put yet. -/
structure NodeProcess where
  system : System
  lease : Option Nat
  tasks : List PublishTask

def NodeProcess.new (geometry : Geometry) (capacity : Nat) : NodeProcess where
  system := System.new geometry 0 capacity
  lease := none
  tasks := []

structure Federation where
  cluster : Cluster
  processes : String → NodeProcess

/-- A new process of a node, an atomic step of a request, the put of a publish task or its
failure, the two calls of `register_node`, the end of a lease, or a step of a node's
watches. -/
inductive FederationAction where
  | start (node : String)
  | request (node : String) (action : Action)
  | publish (node : String) (position : Nat)
  | fail (node : String) (position : Nat)
  | grant (node : String)
  | putNode (node : String)
  | finish (lease : Nat)
  | watchBlocks (node : String)
  | watchNodes (node : String)
  | takeBlock (node : String)
  | takeNode (node : String)

namespace Federation

section Model

variable (platform : Platform) (deployment : Deployment)

/-- Nobody is registered, and every process is a fresh one. -/
def new : Federation where
  cluster := Cluster.new
  processes := fun node => .new (deployment.geometry node) (deployment.capacity node)

def stepCluster (federation : Federation) (action : ClusterAction) : Federation :=
  { federation with
    cluster := federation.cluster.step platform deployment.vnodesPerNode action }

def updateProcess (federation : Federation) (node : String) (process : NodeProcess) :
    Federation :=
  { federation with processes := Function.update federation.processes node process }

def step (federation : Federation) : FederationAction → Federation
  | .start node =>
      (federation.stepCluster platform deployment (.start node)).updateProcess node
        (.new (deployment.geometry node) (deployment.capacity node))
  | .request node action =>
      let process := federation.processes node
      federation.updateProcess node
        { process with
          system := process.system.step platform action
          tasks := process.tasks ++ Publisher.spawns process.system action }
  | .publish node position =>
      let process := federation.processes node
      match process.tasks[position]? with
      | none => federation
      | some task =>
          (federation.stepCluster platform deployment
            (.etcd (task.op node (deployment.nodeAddr node) process.lease))).updateProcess node
              { process with tasks := process.tasks.eraseIdx position }
  | .fail node position =>
      let process := federation.processes node
      federation.updateProcess node { process with tasks := process.tasks.eraseIdx position }
  | .grant node =>
      (federation.stepCluster platform deployment (.etcd .grant)).updateProcess node
        { federation.processes node with lease := some federation.cluster.etcd.store.granted }
  | .putNode node =>
      federation.stepCluster platform deployment
        (.etcd (.putNode ⟨node, deployment.nodeAddr node⟩ (federation.processes node).lease))
  | .finish lease => federation.stepCluster platform deployment (.etcd (.finish lease))
  | .watchBlocks node => federation.stepCluster platform deployment (.watchBlocks node)
  | .watchNodes node => federation.stepCluster platform deployment (.watchNodes node)
  | .takeBlock node => federation.stepCluster platform deployment (.takeBlock node)
  | .takeNode node => federation.stepCluster platform deployment (.takeNode node)

/-- One node of the federation, as an agent that watches etcd. -/
def agent (federation : Federation) (node : String) : WatchingAgent where
  publisher := {
    system := (federation.processes node).system
    lease := (federation.processes node).lease
    etcd := federation.cluster.etcd
    tasks := (federation.processes node).tasks
    spawned := [] }
  view := federation.cluster.views node
  lookups := []

/-- A node can give the answer to a Lookup now: both its reads are made now, or it has
missed in the index before and reads the remote index now. -/
def Answers (federation : Federation) (node modelId : String) (prefixHash : PrefixHash)
    (response : LookupResponse) : Prop :=
  (federation.agent node).reply platform node modelId prefixHash = .ok response ∨
    (federation.agent node).remoteReply (compositeKey platform modelId prefixHash) = response

instance (federation : Federation) (node modelId : String) (prefixHash : PrefixHash)
    (response : LookupResponse) :
    Decidable (federation.Answers platform node modelId prefixHash response) :=
  inferInstanceAs (Decidable (_ ∨ _))

end Model

end Federation

/-! ## What the watches carry -/

/-- Every location a view lists, or will list once its block stream is taken, meets the
condition. -/
def View.Lists (Holds : PrefixHash → RemoteBlockInfo → Prop) (view : View) : Prop :=
  (∀ prefixHash entries, view.remoteIndex.lookup prefixHash = some entries →
    ∀ info ∈ entries, Holds prefixHash info) ∧
  ∀ key value, BlockEvent.put key value ∈ view.blockStream →
    ∀ prefixHash, blockHashOf key = some prefixHash → Holds prefixHash value.info

def Cluster.Lists (Holds : PrefixHash → RemoteBlockInfo → Prop) (cluster : Cluster) : Prop :=
  ∀ node view, cluster.views node = some view → view.Lists Holds

section Lists

variable {Holds : PrefixHash → RemoteBlockInfo → Prop}

theorem RemoteIndex.holds_insert {remote : RemoteIndex} {inserted : PrefixHash}
    {added : RemoteBlockInfo}
    (old : ∀ prefixHash entries, remote.lookup prefixHash = some entries →
      ∀ info ∈ entries, Holds prefixHash info)
    (holds : Holds inserted added) {prefixHash : PrefixHash} {entries : List RemoteBlockInfo}
    (looked : (remote.insert inserted added).lookup prefixHash = some entries) :
    ∀ info ∈ entries, Holds prefixHash info := by
  intro info member
  by_cases same : inserted = prefixHash
  · subst same
    rw [RemoteIndex.lookup_insert_self, Option.some.injEq] at looked
    rw [← looked] at member
    rcases RemoteIndex.mem_of_mem_upsert member with isAdded | listed
    · rw [isAdded]
      exact holds
    · cases before : remote.lookup inserted with
      | none => simp [before] at listed
      | some others => exact old inserted others before info (by simpa [before] using listed)
  · rw [RemoteIndex.lookup_insert_ne same] at looked
    exact old prefixHash entries looked info member

theorem RemoteIndex.holds_removeNode {remote : RemoteIndex} {removed : String}
    (old : ∀ prefixHash entries, remote.lookup prefixHash = some entries →
      ∀ info ∈ entries, Holds prefixHash info)
    {prefixHash : PrefixHash} {entries : List RemoteBlockInfo}
    (looked : (remote.removeNode removed).lookup prefixHash = some entries) :
    ∀ info ∈ entries, Holds prefixHash info := by
  intro info member
  rw [RemoteIndex.lookup_removeNode] at looked
  obtain ⟨listed, before, kept⟩ := Option.bind_eq_some_iff.mp looked
  rw [RemoteIndex.othersOf] at kept
  split_ifs at kept
  obtain rfl := Option.some.inj kept
  exact old prefixHash listed before info (List.mem_of_mem_filter member)

theorem View.Lists.takeBlock {view : View} (lists : view.Lists Holds) :
    view.takeBlock.Lists Holds := by
  unfold View.takeBlock
  split
  · rename_i event rest _ stream
    apply And.intro
    · intro prefixHash entries looked
      cases event with
      | put key value =>
          simp only [watchBlocks] at looked
          split at looked
          · exact lists.1 prefixHash entries looked
          · rename_i inserted isHash
            apply RemoteIndex.holds_insert lists.1 _ looked
            exact lists.2 key value (by rw [stream]; exact List.mem_cons_self) inserted isHash
      | delete key =>
          simp only [watchBlocks] at looked
          split at looked
          · exact lists.1 prefixHash entries looked
          · rw [RemoteIndex.lookup_remove] at looked
            split_ifs at looked
            exact lists.1 prefixHash entries looked
    · intro key value queued
      exact lists.2 key value (by rw [stream]; exact List.mem_cons_of_mem _ queued)
  · exact lists

theorem View.Lists.takeNode {view : View} (platform : Platform) (lists : view.Lists Holds) :
    (view.takeNode platform).Lists Holds := by
  unfold View.takeNode
  split
  · rename_i event rest _
    apply And.intro _ lists.2
    intro prefixHash entries looked
    cases event with
    | put key => exact lists.1 prefixHash entries looked
    | delete key => exact RemoteIndex.holds_removeNode lists.1 looked
  · exact lists

theorem View.lists_start (platform : Platform) (vnodesPerNode : UInt32) (node : String) :
    (View.start platform vnodesPerNode node).Lists Holds := by
  apply And.intro
  · intro prefixHash entries looked
    cases looked
  · intro key value queued
    cases queued

/-- Only puts bring new locations to the nodes. -/
theorem Cluster.Lists.step {cluster : Cluster} {platform : Platform} {vnodesPerNode : UInt32}
    {action : ClusterAction} (lists : cluster.Lists Holds)
    (puts : ∀ prefixHash value lease, action = .etcd (.put prefixHash value lease) →
      Holds prefixHash value.info) :
    (cluster.step platform vnodesPerNode action).Lists Holds := by
  refine forall_views_step lists ?_ ?_ (fun view listed => listed)
    (fun view listed => listed.takeBlock) fun view listed => listed.takeNode platform
  · intro agent _
    exact View.lists_start platform vnodesPerNode agent
  · rintro op rfl view listed
    apply And.intro listed.1
    intro key value queued prefixHash isHash
    rcases List.mem_append.mp queued with old | added
    · exact listed.2 key value old prefixHash isHash
    · obtain ⟨putHash, lease, isPut, isKey⟩ := Etcd.put_of_mem_blockEvents added
      rw [isKey, blockHashOf_blockKey] at isHash
      obtain rfl := Option.some.inj isHash
      exact puts putHash value lease (by rw [isPut])

end Lists

/-! ## What a process has written -/

/-- The history of a process accounts for its memory, for every location it was given and
for the Stores that have not reached the index. -/
structure System.Traced (platform : Platform) (geometry : Geometry) (system : System) :
    Prop where
  recorded : system.Recorded platform geometry
  placed : ∀ write ∈ system.writes, Placed geometry write.location
  pending : ∀ pending ∈ system.stores, ∃ write ∈ system.writes,
    write.key = pending.key ∧ write.location = pending.location

section Traced

variable {platform : Platform} {geometry : Geometry} {system : System}

theorem System.writes_subset_step (platform : Platform) (system : System) (action : Action) :
    ∀ write ∈ system.writes, write ∈ (system.step platform action).writes := by
  obtain ⟨written, -, writesEq⟩ := System.step_effect platform system action
  intro write member
  rw [writesEq]
  exact List.mem_append_left _ member

theorem System.Effect.placed {allocator after : BlockAllocator}
    {held heldAfter : Multiset BlockStore.BlockLocation} {written : List Write}
    (effect : System.Effect platform allocator held after heldAfter written)
    (small : geometry.totalBlocks ≤ 2 ^ 32)
    (geometryEq : allocator.pool.geometry = geometry) :
    ∀ write ∈ written, Placed geometry write.location := by
  intro write member
  cases effect with
  | quiet fewer => cases member
  | write outcome =>
      obtain rfl := List.mem_singleton.mp member
      exact (written_of_allocateAndWrite small geometryEq outcome).placed
  | lose outcome => cases member
  | free freed => cases member

/-- A Store in flight after a step was in flight before it, or has just been written. -/
theorem System.stored_of_mem_stores {action : Action} {pending : PendingStore}
    (member : pending ∈ (system.step platform action).stores) :
    pending ∈ system.stores ∨ ∃ write ∈ (system.step platform action).writes,
      write.key = pending.key ∧ write.location = pending.location := by
  by_cases isWrite : ∃ key data, action = .storeWrite key data
  · obtain ⟨key, data, rfl⟩ := isWrite
    simp only [System.step] at member ⊢
    split at member
    · rename_i allocator location handle outcome
      rcases List.mem_append.mp member with old | added
      · exact Or.inl old
      · obtain rfl := List.mem_singleton.mp added
        apply Or.inr
        exact ⟨⟨key, data, location⟩, List.mem_append_right _ (List.mem_singleton_self _), rfl,
          rfl⟩
    · exact Or.inl member
    · exact Or.inl member
  · apply Or.inl
    apply System.mem_stores_step _ member
    intro key data same
    exact isWrite ⟨key, data, same⟩

theorem System.traced_new (platform : Platform) (small : geometry.totalBlocks ≤ 2 ^ 32)
    (roomy : BlockHeader.size ≤ geometry.blockSize) (capacity : Nat) :
    (System.new geometry 0 capacity).Traced platform geometry where
  recorded := run_recorded small roomy platform 0 capacity []
  placed := fun write member => by cases member
  pending := fun pending member => by cases member

theorem System.Traced.step (small : geometry.totalBlocks ≤ 2 ^ 32)
    (roomy : BlockHeader.size ≤ geometry.blockSize) (traced : system.Traced platform geometry)
    (action : Action) : (system.step platform action).Traced platform geometry := by
  obtain ⟨written, effect, writesEq⟩ := System.step_effect platform system action
  obtain ⟨exclusive, recorded⟩ := traced.recorded
  apply System.Traced.mk
  · apply And.intro (Exclusive.effect small exclusive effect)
    rw [writesEq]
    exact recorded.effect small roomy exclusive effect
  · intro write member
    rw [writesEq] at member
    rcases List.mem_append.mp member with old | added
    · exact traced.placed write old
    · exact effect.placed small exclusive.geometryEq write added
  · intro pending member
    rcases System.stored_of_mem_stores member with old | written
    · obtain ⟨write, isWrite, same⟩ := traced.pending pending old
      exact ⟨write, System.writes_subset_step platform system action write isWrite, same⟩
    · exact written

end Traced

/-! ## Where locations come from -/

@[simp] theorem PublishTask.info_record_nodeId (task : PublishTask) (nodeId nodeAddr : String) :
    (task.record nodeId nodeAddr).info.nodeId = nodeId := rfl

namespace Federation

/-- The node of the location has written a block there under the key, with the
generation. -/
def Stored (federation : Federation) (key : PrefixHash) (info : RemoteBlockInfo) : Prop :=
  ∃ write ∈ (federation.processes info.nodeId).system.writes, write.key = key ∧
    write.location.offset = info.offset ∧ write.location.blockSize = info.size ∧
    write.location.generation = info.generation

/-- A node starts a new process only when no other node lists a location of it, nor has
one in its block stream. -/
def RestartsForgotten (federation : Federation) : FederationAction → Prop
  | .start node =>
      ∀ other view, other ≠ node → federation.cluster.views other = some view →
        view.Lists fun _ info => info.nodeId ≠ node
  | _ => True

/-- Every location that is to be published, on its way or listed was stored by the
process its node runs now. -/
structure Truthful (platform : Platform) (deployment : Deployment) (federation : Federation) :
    Prop where
  traced : ∀ node,
    (federation.processes node).system.Traced platform (deployment.geometry node)
  tasks : ∀ node, ∀ task ∈ (federation.processes node).tasks,
    federation.Stored task.prefixHash (task.record node (deployment.nodeAddr node)).info
  lists : federation.cluster.Lists federation.Stored

section Steps

variable {platform : Platform} {deployment : Deployment} {federation : Federation}

theorem Stored.mono {after : Federation} {key : PrefixHash} {info : RemoteBlockInfo}
    (stored : federation.Stored key info)
    (kept : ∀ write ∈ (federation.processes info.nodeId).system.writes,
      write ∈ (after.processes info.nodeId).system.writes) : after.Stored key info := by
  obtain ⟨write, member, same⟩ := stored
  exact ⟨write, kept write member, same⟩

/-- Steps of etcd and of the watches; a put must be of a stored block. -/
theorem Truthful.stepCluster (truthful : Truthful platform deployment federation)
    {action : ClusterAction}
    (puts : ∀ prefixHash value lease, action = .etcd (.put prefixHash value lease) →
      federation.Stored prefixHash value.info) :
    Truthful platform deployment (federation.stepCluster platform deployment action) where
  traced := truthful.traced
  tasks := truthful.tasks
  lists := truthful.lists.step puts

theorem system_updateProcess_of_ne {node other : String} (different : other ≠ node)
    (process : NodeProcess) :
    (federation.updateProcess node process).processes other = federation.processes other :=
  Function.update_of_ne different ..

/-- Another process at a node, or another state of it. -/
theorem Truthful.updateProcess (truthful : Truthful platform deployment federation)
    {node : String} {process : NodeProcess}
    (traced : process.system.Traced platform (deployment.geometry node))
    (tasks : ∀ task ∈ process.tasks, (federation.updateProcess node process).Stored
      task.prefixHash (task.record node (deployment.nodeAddr node)).info)
    (lists : federation.cluster.Lists (federation.updateProcess node process).Stored) :
    Truthful platform deployment (federation.updateProcess node process) := by
  have atNode : (federation.updateProcess node process).processes node = process :=
    Function.update_self ..
  apply Truthful.mk _ _ lists
  · intro other
    by_cases same : other = node
    · subst same
      rw [atNode]
      exact traced
    · rw [system_updateProcess_of_ne same]
      exact truthful.traced other
  · intro other task member
    by_cases same : other = node
    · subst same
      rw [atNode] at member
      exact tasks task member
    · rw [system_updateProcess_of_ne same] at member
      apply (truthful.tasks other task member).mono
      intro write isWrite
      rwa [PublishTask.info_record_nodeId, system_updateProcess_of_ne same]

/-- A process that keeps its writes and has tasks of written blocks only. -/
theorem Truthful.proceed (truthful : Truthful platform deployment federation)
    {node : String} {process : NodeProcess}
    (traced : process.system.Traced platform (deployment.geometry node))
    (kept : ∀ write ∈ (federation.processes node).system.writes, write ∈ process.system.writes)
    (spawned : ∀ task ∈ process.tasks, task ∈ (federation.processes node).tasks ∨
      ∃ pending ∈ (federation.processes node).system.stores, pending.task = task) :
    Truthful platform deployment (federation.updateProcess node process) := by
  have atNode : (federation.updateProcess node process).processes node = process :=
    Function.update_self ..
  have keptAt : ∀ other, ∀ write ∈ (federation.processes other).system.writes,
      write ∈ ((federation.updateProcess node process).processes other).system.writes := by
    intro other write member
    by_cases same : other = node
    · subst same
      rw [atNode]
      exact kept write member
    · rwa [system_updateProcess_of_ne same]
  apply truthful.updateProcess traced
  · intro task member
    rcases spawned task member with old | new
    · exact (truthful.tasks node task old).mono (keptAt node)
    · -- the task of a Store that reaches the index: its block was written before
      obtain ⟨pending, inFlight, rfl⟩ := new
      obtain ⟨write, isWrite, sameKey, sameLocation⟩ :=
        (truthful.traced node).pending pending inFlight
      refine ⟨write, keptAt node write isWrite, sameKey, ?_⟩
      rw [sameLocation]
      exact ⟨rfl, rfl, rfl⟩
  · intro other view isView
    obtain ⟨listed, queued⟩ := truthful.lists other view isView
    apply And.intro
    · intro prefixHash entries looked info member
      exact (listed prefixHash entries looked info member).mono (keptAt info.nodeId)
    · intro key value isQueued prefixHash isHash
      exact (queued key value isQueued prefixHash isHash).mono (keptAt value.nodeId)

/-- A new process at a node of which nothing is listed. -/
theorem Truthful.restart (small : ∀ node, (deployment.geometry node).totalBlocks ≤ 2 ^ 32)
    (roomy : ∀ node, BlockHeader.size ≤ (deployment.geometry node).blockSize)
    (truthful : Truthful platform deployment federation) {node : String}
    (forgotten : federation.cluster.Lists fun _ info => info.nodeId ≠ node) :
    Truthful platform deployment (federation.updateProcess node
      (.new (deployment.geometry node) (deployment.capacity node))) := by
  apply truthful.updateProcess (System.traced_new platform (small node) (roomy node) _)
  · intro task member
    cases member
  · intro other view isView
    obtain ⟨listed, queued⟩ := truthful.lists other view isView
    obtain ⟨listedElse, queuedElse⟩ := forgotten other view isView
    have kept : ∀ {key : PrefixHash} {info : RemoteBlockInfo}, info.nodeId ≠ node →
        federation.Stored key info → (federation.updateProcess node
          (.new (deployment.geometry node) (deployment.capacity node))).Stored key info := by
      intro key info different stored
      apply stored.mono
      intro write isWrite
      rwa [system_updateProcess_of_ne different]
    apply And.intro
    · intro prefixHash entries looked info member
      exact kept (listedElse prefixHash entries looked info member)
        (listed prefixHash entries looked info member)
    · intro key value isQueued prefixHash isHash
      exact kept (queuedElse key value isQueued prefixHash isHash)
        (queued key value isQueued prefixHash isHash)

/-- What the other nodes have forgotten before a new process starts, all have after it. -/
theorem lists_start {node : String} (forgotten : federation.RestartsForgotten (.start node)) :
    (federation.stepCluster platform deployment (.start node)).cluster.Lists
      fun _ info => info.nodeId ≠ node := by
  intro other view isView
  simp only [stepCluster, Cluster.step, Cluster.updateView] at isView
  by_cases same : other = node
  · rw [same, Function.update_self] at isView
    cases isView
  · rw [Function.update_of_ne same] at isView
    exact forgotten other view same isView

/-- Every step keeps the locations truthful, if restarts wait until they are forgotten. -/
theorem Truthful.step (small : ∀ node, (deployment.geometry node).totalBlocks ≤ 2 ^ 32)
    (roomy : ∀ node, BlockHeader.size ≤ (deployment.geometry node).blockSize)
    {action : FederationAction} (allowed : federation.RestartsForgotten action)
    (truthful : Truthful platform deployment federation) :
    Truthful platform deployment (federation.step platform deployment action) := by
  have noPut : ∀ action : ClusterAction,
      (∀ prefixHash value lease, action ≠ .etcd (.put prefixHash value lease)) →
      Truthful platform deployment (federation.stepCluster platform deployment action) := by
    intro action notPut
    apply truthful.stepCluster
    intro prefixHash value lease isPut
    exact absurd isPut (notPut prefixHash value lease)
  cases action with
  | start node => exact (noPut (.start node) (by simp)).restart small roomy (lists_start allowed)
  | request node action =>
      apply truthful.proceed ((truthful.traced node).step (small node) (roomy node) action)
      · exact System.writes_subset_step platform _ action
      · intro task member
        apply (List.mem_append.mp member).imp_right
        intro spawned
        obtain ⟨position, now, pending, -, selected, isTask⟩ := Publisher.mem_spawns.mp spawned
        exact ⟨pending, List.mem_of_getElem? selected, isTask⟩
  | publish node position =>
      simp only [Federation.step]
      cases selected : (federation.processes node).tasks[position]? with
      | none => exact truthful
      | some task =>
          have put : Truthful platform deployment (federation.stepCluster platform deployment
              (.etcd (task.op node (deployment.nodeAddr node)
                (federation.processes node).lease))) := by
            apply truthful.stepCluster
            intro prefixHash value lease isPut
            obtain ⟨rfl, rfl, -⟩ := EtcdOp.put.inj (ClusterAction.etcd.inj isPut)
            exact truthful.tasks node task (List.mem_of_getElem? selected)
          refine put.proceed (truthful.traced node) (fun write member => member) ?_
          intro other member
          exact Or.inl (List.mem_of_mem_eraseIdx member)
  | fail node position =>
      refine truthful.proceed (truthful.traced node) (fun write member => member) ?_
      intro other member
      exact Or.inl (List.mem_of_mem_eraseIdx member)
  | grant node =>
      have granted := noPut (.etcd .grant) (by simp)
      exact granted.proceed (truthful.traced node) (fun write member => member)
        (fun task member => Or.inl member)
  | putNode node => exact noPut (.etcd (.putNode _ _)) (by simp)
  | finish lease => exact noPut (.etcd (.finish lease)) (by simp)
  | watchBlocks node => exact noPut (.watchBlocks node) (by simp)
  | watchNodes node => exact noPut (.watchNodes node) (by simp)
  | takeBlock node => exact noPut (.takeBlock node) (by simp)
  | takeNode node => exact noPut (.takeNode node) (by simp)

end Steps

theorem new_truthful (platform : Platform) {deployment : Deployment}
    (small : ∀ node, (deployment.geometry node).totalBlocks ≤ 2 ^ 32)
    (roomy : ∀ node, BlockHeader.size ≤ (deployment.geometry node).blockSize) :
    Truthful platform deployment (new deployment) where
  traced := fun node => System.traced_new platform (small node) (roomy node) _
  tasks := fun node task member => by cases member
  lists := fun node view isView => by cases isView

/-! ## Hits on other nodes -/

/-- A Lookup answered from another node names one location, the first that is listed. -/
theorem listed_of_remote_hit {platform : Platform} {federation : Federation}
    {node modelId : String} {prefixHash : PrefixHash} {response : LookupResponse}
    (answered : federation.Answers platform node modelId prefixHash response)
    (found : response.found = true) (elsewhere : response.isLocal = false) :
    ∃ view entries info, federation.cluster.views node = some view ∧
      view.remoteIndex.lookup (compositeKey platform modelId prefixHash) = some entries ∧
      info ∈ entries ∧
      response.blocks = [⟨info.nodeId, info.offset, info.size, info.generation⟩] := by
  have remote : (federation.agent node).remoteReply (compositeKey platform modelId prefixHash) =
      response := by
    rcases answered with fresh | missed
    · rw [WatchingAgent.reply_eq, Except.ok.injEq] at fresh
      cases present : (federation.agent node).publisher.system.index.map.lookup
          (compositeKey platform modelId prefixHash) with
      | some entry =>
          rw [present] at fresh
          rw [← fresh] at elsewhere
          cases elsewhere
      | none =>
          rw [present] at fresh
          exact fresh
    · exact missed
  rw [WatchingAgent.remoteReply] at remote
  cases isFirst : ((federation.agent node).remoteIndex.lookup
      (compositeKey platform modelId prefixHash)).bind List.head? with
  | none =>
      simp only [isFirst] at remote
      rw [← remote] at found
      cases found
  | some info =>
      simp only [isFirst] at remote
      obtain ⟨entries, looked, isHead⟩ := Option.bind_eq_some_iff.mp isFirst
      cases watching : federation.cluster.views node with
      | none =>
          simp only [WatchingAgent.remoteIndex, agent, watching] at looked
          cases looked
      | some view =>
          simp only [WatchingAgent.remoteIndex, agent, watching] at looked
          exact ⟨view, entries, info, rfl, looked, List.mem_of_head? isHead, by rw [← remote]⟩

/-- A location that a Lookup gives for another node can be trusted as far as its
generation. In every run of the nodes in which a node starts a new process only after
the others have forgotten its old locations, a hit that is not local names a block that
its node wrote under the looked-up key; and if the header of that block in the node's
memory carries the generation of the hit, the block still holds what was written. -/
theorem remote_hits_checked_by_generation (platform : Platform) (deployment : Deployment)
    (small : ∀ node, (deployment.geometry node).totalBlocks ≤ 2 ^ 32)
    (roomy : ∀ node, BlockHeader.size ≤ (deployment.geometry node).blockSize)
    (actions : List FederationAction)
    (allowed : Allows (step platform deployment) RestartsForgotten (new deployment) actions)
    (node modelId : String) (prefixHash : PrefixHash) (response : LookupResponse)
    (answered : (run (step platform deployment) (new deployment) actions).Answers platform node
      modelId prefixHash response)
    (found : response.found = true) (elsewhere : response.isLocal = false) :
    ∃ hit, response.blocks = [hit] ∧
      let owner := (run (step platform deployment) (new deployment) actions).processes hit.nodeId
      let region := owner.system.allocator.pool.region
      let geometry := deployment.geometry hit.nodeId
      ∃ write ∈ owner.system.writes, write.key = compositeKey platform modelId prefixHash ∧
        write.location.generation = hit.generationId ∧
        hit.offset.toNat = blockOf write.location * geometry.blockSize ∧
        hit.size.toNat = geometry.blockSize ∧
        (owner.system.writes.length < 2 ^ 64 - 1 →
          ∀ header, BlockAllocator.headerIn geometry region (blockOf write.location) = some header →
            header.generation = hit.generationId →
            BlockAllocator.Holds platform geometry region (blockOf write.location) write.data
              hit.generationId) := by
  have truthful : Truthful platform deployment
      (run (step platform deployment) (new deployment) actions) :=
    run_invariant_of_allows (fun _ _ forgotten earlier => earlier.step small roomy forgotten)
      (new_truthful platform small roomy) allowed
  obtain ⟨view, entries, info, isView, looked, listed, blocksEq⟩ :=
    listed_of_remote_hit answered found elsewhere
  obtain ⟨write, member, sameKey, sameOffset, sameSize, sameGeneration⟩ :=
    (truthful.lists node view isView).1 _ entries looked info listed
  have traced := truthful.traced info.nodeId
  have placed := traced.placed write member
  refine ⟨_, blocksEq, write, member, sameKey, sameGeneration, ?_, ?_, ?_⟩
  · rw [← sameOffset]
    exact placed.offsetEq
  · rw [← sameSize]
    exact placed.sizeEq
  · intro few header isHeader current
    have sound := (generationsSound_of_recorded traced.recorded.2 few).1 write member header
      isHeader (current.trans sameGeneration.symm)
    rwa [sameGeneration] at sound

/-- Every node with two blocks. -/
def twoBlocksEach : Deployment where
  geometry := fun _ => .twoBlocks
  capacity := fun _ => 2
  nodeAddr := fun node => node ++ ":50051"
  vnodesPerNode := 1

/-- One node stores and publishes a block, another hears of it. -/
def firstBlock : List FederationAction :=
  [.grant "a", .putNode "a", .grant "b", .putNode "b", .watchBlocks "a", .watchNodes "a",
    .request "b" (.storeWrite (.ofByte 1) [7]), .request "b" (.storeInsert 0 0), .publish "b" 0,
    .takeBlock "a"]

/-- The other node's hit on it. -/
theorem remote_hits_checked_by_generation_of_first_block :
    let final := run (step Platform.release twoBlocksEach) (new twoBlocksEach) firstBlock
    let hit : Proto.BlockLocation := ⟨"b", 32, 32, 1⟩
    final.Answers Platform.release "a" "" (.ofByte 1) ⟨true, [hit], false⟩ ∧
      ∃ write ∈ (final.processes "b").system.writes, write.key = .ofByte 1 := by
  intro final hit
  have answered : final.Answers Platform.release "a" "" (.ofByte 1) ⟨true, [hit], false⟩ := by
    decide +kernel
  apply And.intro answered
  have allowed : Allows (step Platform.release twoBlocksEach) RestartsForgotten
      (new twoBlocksEach) firstBlock := by
    repeat' apply And.intro
    all_goals trivial
  have small : Geometry.twoBlocks.totalBlocks ≤ 2 ^ 32 := by decide
  have roomy : BlockHeader.size ≤ Geometry.twoBlocks.blockSize := by decide
  obtain ⟨named, isHit, write, member, sameKey, -⟩ :=
    remote_hits_checked_by_generation Platform.release twoBlocksEach (fun _ => small)
      (fun _ => roomy) firstBlock allowed "a" "" (.ofByte 1) _ answered rfl rfl
  obtain ⟨rfl, -⟩ := List.cons.inj isHit
  exact ⟨write, member, sameKey⟩

/-- Without the wait it is not enough: the node restarts while the other still lists the
block, counts generations from the start again and writes another key into the block. The
generation of the old hit is the one in memory, and the bytes are the new ones. -/
theorem restarted_node_reuses_generation :
    let final := run (step Platform.release twoBlocksEach) (new twoBlocksEach)
      (firstBlock ++ [.finish 1, .start "b", .grant "b", .putNode "b",
        .request "b" (.storeWrite (.ofByte 2) [8])])
    let owner := (final.processes "b").system
    final.Answers Platform.release "a" "" (.ofByte 1) ⟨true, [⟨"b", 32, 32, 1⟩], false⟩ ∧
      (BlockAllocator.headerIn .twoBlocks owner.allocator.pool.region 1).map
        BlockHeader.generation = some 1 ∧
      owner.writes.map (fun write => (write.key, write.data)) = [(.ofByte 2, [8])] := by
  decide +kernel

end Federation

end CmxRdma.Agent
