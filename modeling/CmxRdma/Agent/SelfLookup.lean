import CmxRdma.Agent.Cluster
import CmxRdma.Agent.Publishing
import CmxRdma.Agent.Retention

/-!
Contract: an agent that watches the etcd it publishes to.

Owns: one agent's requests, publish tasks and watches over one etcd, the echo of
its own puts in its remote index, the two reads of a Lookup with any steps between
them, and the runs in which no Lookup sends a client back to the agent that answers it.

Does not own: agents that do not publish. The agent has a metadata client and its
watches are started in the order of `main`.
-/

namespace CmxRdma.Agent

open CmxRdma.BlockStore
open CmxRdma.Lib.Transition
open CmxRdma.Memory
open CmxRdma.Proto

/-- A publishing agent, what its watches have told it, and the keys of the Lookups that
have missed in the index and are still to read the remote index. -/
structure WatchingAgent where
  publisher : Publisher
  view : Option View
  lookups : List PrefixHash

/-- A step of the agent, of a publish task or of another node; the answer to a Lookup
that has missed in the index; or a step of the watches. -/
inductive WatchingAction where
  | publisher (action : PublisherAction)
  | answer (position : Nat)
  | watchBlocks
  | watchNodes
  | takeBlock
  | takeNode

namespace WatchingAgent

def new (geometry : Geometry) (capacity : Nat) : WatchingAgent where
  publisher := Publisher.new geometry capacity
  view := none
  lookups := []

/-- The Lookup a step of the agent leaves open: `lookup` holds no lock between its read
of the index and that of the remote index. -/
def opened (agent : WatchingAgent) : PublisherAction → List PrefixHash
  | .agent (.lookup key) => if key ∈ agent.publisher.system.index.map then [] else [key]
  | _ => []

section Step

variable (platform : Platform) (vnodesPerNode : UInt32) (nodeId nodeAddr : String)

/-- A change of etcd adds its events to the watches that exist. -/
def step (agent : WatchingAgent) : WatchingAction → WatchingAgent
  | .publisher action =>
      { publisher := agent.publisher.step platform nodeId nodeAddr action
        view :=
          match agent.publisher.change nodeId nodeAddr action with
          | none => agent.view
          | some op =>
              agent.view.map (View.deliver (agent.publisher.etcd.blockEvents op)
                (agent.publisher.etcd.nodeEvents op))
        lookups := agent.lookups ++ agent.opened action }
  | .answer position => { agent with lookups := agent.lookups.eraseIdx position }
  | .watchBlocks =>
      { agent with view := some (agent.view.getD (View.start platform vnodesPerNode nodeId)) }
  | .watchNodes =>
      { agent with view := agent.view.map (View.watchNodes agent.publisher.etcd.revision) }
  | .takeBlock => { agent with view := agent.view.map View.takeBlock }
  | .takeNode => { agent with view := agent.view.map (View.takeNode platform) }

end Step

/-- The remote index is empty until the watches run. -/
def remoteIndex (agent : WatchingAgent) : RemoteIndex :=
  (agent.view.map View.remoteIndex).getD RemoteIndex.new

/-- The service that answers a request now. -/
def service (nodeId : String) (agent : WatchingAgent) : CacheService where
  allocator := agent.publisher.system.allocator
  index := agent.publisher.system.index
  nodeId := nodeId
  metadata := true
  publishTasks := agent.publisher.tasks
  pressureLevel := 0
  remoteIndex := some agent.remoteIndex
  cacheHits := 0
  cacheMisses := 0
  evictions := 0

/-- The answer to a Lookup whose two reads are made now. -/
def reply (platform : Platform) (nodeId : String) (agent : WatchingAgent) (modelId : String)
    (prefixHash : PrefixHash) : Except Status LookupResponse :=
  ((agent.service nodeId).lookup platform ⟨prefixHash.toBytes, modelId⟩).2

/-- The answer to a Lookup that has missed in the index before and reads the remote index
now. -/
def remoteReply (agent : WatchingAgent) (key : PrefixHash) : LookupResponse :=
  match (agent.remoteIndex.lookup key).bind List.head? with
  | some first => ⟨true, [⟨first.nodeId, first.offset, first.size, first.generation⟩], false⟩
  | none => ⟨false, [], false⟩

/-- No Lookup, made now or open since before, is answered with a non-local hit on the
agent itself. -/
def NoSelfReference (platform : Platform) (nodeId : String) (agent : WatchingAgent) : Prop :=
  (∀ modelId prefixHash response, agent.reply platform nodeId modelId prefixHash = .ok response →
    response.found = true → response.isLocal = false →
      ∀ block ∈ response.blocks, block.nodeId ≠ nodeId) ∧
  ∀ key ∈ agent.lookups, ∀ block ∈ (agent.remoteReply key).blocks, block.nodeId ≠ nodeId

/-- A Lookup of the key reads the remote index. -/
def Misses (key : PrefixHash) (agent : WatchingAgent) : Prop :=
  key ∉ agent.publisher.system.index.map ∨ key ∈ agent.lookups

/-- A Lookup of the key falls back to the agent's own announcement. -/
def FallsBack (nodeId : String) (key : PrefixHash) (agent : WatchingAgent) : Prop :=
  agent.Misses key ∧ agent.remoteIndex.firstNode key = some nodeId

/-! ## The answer -/

theorem remoteFirst_service (nodeId : String) (agent : WatchingAgent) (key : PrefixHash) :
    (agent.service nodeId).remoteFirst key = (agent.remoteIndex.lookup key).bind List.head? := by
  simp only [CacheService.remoteFirst, service]
  cases agent.remoteIndex.lookup key <;> rfl

/-- The two reads of `lookup`: the answer of a miss in the index is `remoteReply`. -/
theorem reply_eq (platform : Platform) (nodeId : String) (agent : WatchingAgent)
    (modelId : String) (prefixHash : PrefixHash) :
    agent.reply platform nodeId modelId prefixHash =
      .ok (match agent.publisher.system.index.map.lookup
            (compositeKey platform modelId prefixHash) with
        | some entry => ⟨true, entry.blocks.map (agent.service nodeId).protoLocation, true⟩
        | none => agent.remoteReply (compositeKey platform modelId prefixHash)) := by
  rw [reply, CacheService.lookup_answer, remoteFirst_service]
  rfl

/-- The answer names a node exactly when that node is listed first. -/
theorem exists_mem_remoteReply_iff (agent : WatchingAgent) (key : PrefixHash) (nodeId : String) :
    (∃ block ∈ (agent.remoteReply key).blocks, block.nodeId = nodeId) ↔
      agent.remoteIndex.firstNode key = some nodeId := by
  rw [remoteReply, RemoteIndex.firstNode]
  cases (agent.remoteIndex.lookup key).bind List.head? with
  | none => simp
  | some first => simp

theorem found_of_mem_remoteReply (agent : WatchingAgent) {key : PrefixHash}
    {block : Proto.BlockLocation} (member : block ∈ (agent.remoteReply key).blocks) :
    (agent.remoteReply key).found = true ∧ (agent.remoteReply key).isLocal = false := by
  rw [remoteReply] at member ⊢
  cases isFirst : (agent.remoteIndex.lookup key).bind List.head? with
  | none => simp [isFirst] at member
  | some first => exact ⟨rfl, rfl⟩

theorem noSelfReference_iff (platform : Platform) (nodeId : String) (agent : WatchingAgent) :
    agent.NoSelfReference platform nodeId ↔ ∀ key, ¬ agent.FallsBack nodeId key := by
  constructor
  · rintro ⟨noFresh, noOpen⟩ key ⟨absent | isOpen, isOwn⟩
    all_goals
      obtain ⟨block, member, named⟩ := (agent.exists_mem_remoteReply_iff key nodeId).mpr isOwn
    · have answered := agent.reply_eq platform nodeId "" key
      rw [compositeKey_empty, AList.lookup_eq_none.mpr absent] at answered
      have remote := agent.found_of_mem_remoteReply member
      exact noFresh "" key _ answered remote.1 remote.2 block member named
    · exact noOpen key isOpen block member named
  · intro never
    have nobody : ∀ key, agent.Misses key → ∀ block ∈ (agent.remoteReply key).blocks,
        block.nodeId ≠ nodeId := fun key misses block member named =>
      never key ⟨misses, (agent.exists_mem_remoteReply_iff key nodeId).mp ⟨block, member, named⟩⟩
    refine ⟨?_, fun key isOpen => nobody key (Or.inr isOpen)⟩
    intro modelId prefixHash response answered found elsewhere block member
    rw [reply_eq, Except.ok.injEq] at answered
    cases present : agent.publisher.system.index.map.lookup
        (compositeKey platform modelId prefixHash) with
    | some entry =>
        simp only [present] at answered
        rw [← answered] at elsewhere
        cases elsewhere
    | none =>
        simp only [present] at answered
        rw [← answered] at member
        exact nobody _ (Or.inl (AList.lookup_eq_none.mp present)) block member

end WatchingAgent

/-! ## The first node along the watches -/

namespace View

/-- The key and the node of the next event of the block watch, if it is a put. -/
def nextPut (view : View) : Option (PrefixHash × String) :=
  match view.nodeWatch, view.blockStream with
  | some _, .put etcdKey value :: _ =>
      (blockHashOf etcdKey).map fun prefixHash => (prefixHash, value.nodeId)
  | _, _ => none

/-- A block event makes a node first only by a put that finds no entry. -/
theorem firstNode_of_takeBlock {view : View} {key : PrefixHash} {nodeId : String}
    (first : view.takeBlock.remoteIndex.firstNode key = some nodeId) :
    view.remoteIndex.firstNode key = some nodeId ∨
      view.remoteIndex.firstNode key = none ∧ view.nextPut = some (key, nodeId) := by
  rcases view with ⟨remote, hashRing, _ | ⟨event, rest⟩, _ | watch⟩
  · exact Or.inl first
  · exact Or.inl first
  · exact Or.inl first
  · cases event with
    | put etcdKey value =>
        simp only [takeBlock, watchBlocks, nextPut] at first ⊢
        cases named : blockHashOf etcdKey with
        | none =>
            rw [named] at first
            exact Or.inl first
        | some prefixHash =>
            simp only [named, RemoteIndex.firstNode_insert] at first
            split_ifs at first with same
            · cases before : remote.firstNode key with
              | some other =>
                  rw [before, Option.getD_some] at first
                  exact Or.inl first
              | none =>
                  rw [before, Option.getD_none, Option.some.injEq] at first
                  refine Or.inr ⟨rfl, ?_⟩
                  rw [Option.map_some, same, ← first]
                  rfl
            · exact Or.inl first
    | delete etcdKey =>
        simp only [takeBlock, watchBlocks] at first
        cases named : blockHashOf etcdKey with
        | none =>
            rw [named] at first
            exact Or.inl first
        | some prefixHash =>
            simp only [named, RemoteIndex.firstNode_remove] at first
            split_ifs at first with same
            exact Or.inl first

theorem firstNode_takeBlock_of_nextPut {view : View} {key : PrefixHash} {nodeId : String}
    (nobody : view.remoteIndex.firstNode key = none)
    (isNext : view.nextPut = some (key, nodeId)) :
    view.takeBlock.remoteIndex.firstNode key = some nodeId := by
  rcases view with ⟨remote, hashRing, _ | ⟨_ | etcdKey, rest⟩, _ | watch⟩ <;>
    simp only [nextPut, reduceCtorEq] at isNext
  rename_i etcdKey value
  obtain ⟨prefixHash, named, pairEq⟩ := Option.map_eq_some_iff.mp isNext
  obtain ⟨rfl, rfl⟩ := Prod.mk.inj pairEq
  simp only at nobody
  simp only [takeBlock, watchBlocks, named, RemoteIndex.firstNode_insert, if_true, nobody,
    Option.getD_none]
  rfl

theorem firstNode_takeNode (platform : Platform) (view : View) (key : PrefixHash) :
    (view.takeNode platform).remoteIndex.firstNode key =
      match view.nextDeparture with
      | none => view.remoteIndex.firstNode key
      | some departed => view.remoteIndex.firstOther departed key := by
  rcases view with ⟨remote, hashRing, stream, _ | ⟨since, _ | ⟨_ | etcdKey, rest⟩⟩⟩
  · rfl
  · rfl
  · rfl
  · exact RemoteIndex.firstNode_removeNode remote (nodeIdOf etcdKey) key

/-! ## Keys no other node published -/

/-- Everything the watches have told about a key, and everything the block watch
still holds about it, comes from one node. -/
structure OnlyOwn (nodeId : String) (key : PrefixHash) (view : View) : Prop where
  listed : view.remoteIndex.OnlyOf key nodeId
  streamed : ∀ etcdKey value, BlockEvent.put etcdKey value ∈ view.blockStream →
    blockHashOf etcdKey = some key → value.nodeId = nodeId

namespace OnlyOwn

variable {nodeId : String} {key : PrefixHash} {view : View}

theorem start (platform : Platform) (vnodesPerNode : UInt32) (nodeId : String)
    (key : PrefixHash) : (View.start platform vnodesPerNode nodeId).OnlyOwn nodeId key :=
  ⟨RemoteIndex.onlyOf_new key nodeId, fun _ _ member => absurd member List.not_mem_nil⟩

theorem deliver (own : view.OnlyOwn nodeId key) {blockEvents : List BlockEvent}
    (announced : ∀ etcdKey value, BlockEvent.put etcdKey value ∈ blockEvents →
      blockHashOf etcdKey = some key → value.nodeId = nodeId) (nodeEvents : List NodeEvent) :
    (view.deliver blockEvents nodeEvents).OnlyOwn nodeId key := by
  refine ⟨own.listed, fun etcdKey value member named => ?_⟩
  rcases List.mem_append.mp member with old | new
  · exact own.streamed etcdKey value old named
  · exact announced etcdKey value new named

theorem watchNodes (own : view.OnlyOwn nodeId key) (revision : Nat) :
    (view.watchNodes revision).OnlyOwn nodeId key :=
  ⟨own.listed, own.streamed⟩

theorem takeBlock (own : view.OnlyOwn nodeId key) : view.takeBlock.OnlyOwn nodeId key := by
  rcases view with ⟨remote, hashRing, _ | ⟨event, rest⟩, _ | watch⟩
  · exact own
  · exact own
  · exact own
  · refine ⟨?_, fun etcdKey value member =>
      own.streamed etcdKey value (List.mem_cons_of_mem _ member)⟩
    cases event with
    | put etcdKey value =>
        simp only [View.takeBlock, watchBlocks]
        cases named : blockHashOf etcdKey with
        | none => exact own.listed
        | some prefixHash =>
            refine own.listed.insert fun same => ?_
            exact own.streamed etcdKey value List.mem_cons_self (same ▸ named)
    | delete etcdKey =>
        simp only [View.takeBlock, watchBlocks]
        cases blockHashOf etcdKey with
        | none => exact own.listed
        | some prefixHash => exact own.listed.remove prefixHash

theorem takeNode (own : view.OnlyOwn nodeId key) (platform : Platform) :
    (view.takeNode platform).OnlyOwn nodeId key := by
  rcases view with ⟨remote, hashRing, stream, _ | ⟨since, _ | ⟨event, rest⟩⟩⟩
  · exact own
  · exact own
  · refine ⟨?_, own.streamed⟩
    cases event with
    | put etcdKey => exact own.listed
    | delete etcdKey => exact own.listed.removeNode (nodeIdOf etcdKey)

end OnlyOwn

end View

namespace WatchingAgent

/-! ## The steps that make a Lookup fall back -/

/-- The step lets a Lookup read the agent's own entry in the remote index: a Delete or an
eviction of a key whose first remote entry is the agent's own; the echo of an own put, of a
key that no node is listed for and that is gone from the index, or that an open Lookup has
missed; or the departure of the nodes listed before the agent, for such a key. -/
def MakesFallBack (nodeId : String) (key : PrefixHash) (agent : WatchingAgent) :
    WatchingAction → Prop
  | .publisher action =>
      agent.publisher.Removes key action ∧ agent.remoteIndex.firstNode key = some nodeId
  | .takeBlock =>
      agent.Misses key ∧ agent.remoteIndex.firstNode key = none ∧
        agent.view.bind View.nextPut = some (key, nodeId)
  | .takeNode =>
      agent.Misses key ∧ ∃ departed,
        agent.view.bind View.nextDeparture = some departed ∧
          agent.remoteIndex.firstOther departed key = some nodeId
  | .answer _ => False
  | .watchBlocks => False
  | .watchNodes => False

section Law

variable {platform : Platform} {vnodesPerNode : UInt32} {nodeId nodeAddr : String}
  {agent : WatchingAgent} {key : PrefixHash}

theorem remoteIndex_publisher (action : PublisherAction) :
    (agent.step platform vnodesPerNode nodeId nodeAddr (.publisher action)).remoteIndex =
      agent.remoteIndex := by
  simp only [step, remoteIndex]
  cases agent.publisher.change nodeId nodeAddr action with
  | none => rfl
  | some op => cases agent.view <;> rfl

/-- Before the watches are started there is nothing to fall back to. -/
theorem not_fallsBack_of_unwatched (unwatched : agent.view = none) :
    ¬ agent.FallsBack nodeId key := by
  rintro ⟨-, isOwn⟩
  simp [remoteIndex, unwatched] at isOwn

/-- A step of the agent opens a Lookup of a key that is missing in the index only. -/
theorem misses_publisher_iff (held : ¬ agent.Misses key) (action : PublisherAction) :
    (agent.step platform vnodesPerNode nodeId nodeAddr (.publisher action)).Misses key ↔
      agent.publisher.Removes key action := by
  obtain ⟨present, notOpen⟩ := not_or.mp held
  have notOpened : key ∉ agent.lookups ++ agent.opened action := by
    rw [List.mem_append, not_or]
    refine ⟨notOpen, fun isOpened => present ?_⟩
    unfold opened at isOpened
    split at isOpened
    · split_ifs at isOpened with found
      · exact absurd isOpened List.not_mem_nil
      · rwa [List.mem_singleton.mp isOpened]
    · exact absurd isOpened List.not_mem_nil
  calc (agent.step platform vnodesPerNode nodeId nodeAddr (.publisher action)).Misses key
      ↔ key ∉ (agent.publisher.step platform nodeId nodeAddr action).system.index.map :=
        or_iff_left notOpened
    _ ↔ agent.publisher.Removes key action :=
        (Publisher.notMem_index_step key agent.publisher action).trans
          (or_iff_left fun kept => present kept.1)

/-- Where a Lookup of the key does not fall back yet, it does after the step exactly
when the step makes it. -/
theorem fallsBack_step_iff (answered : ¬ agent.FallsBack nodeId key) (action : WatchingAction) :
    (agent.step platform vnodesPerNode nodeId nodeAddr action).FallsBack nodeId key ↔
      agent.MakesFallBack nodeId key action := by
  cases action with
  | publisher action =>
      rw [FallsBack, remoteIndex_publisher, MakesFallBack]
      refine and_congr_left fun isOwn => ?_
      exact misses_publisher_iff (fun misses => answered ⟨misses, isOwn⟩) action
  | answer position =>
      refine iff_of_false (fun falls => answered ⟨?_, falls.2⟩) id
      exact falls.1.imp_right List.mem_of_mem_eraseIdx
  | watchBlocks =>
      refine iff_of_false (fun falls => answered ?_) id
      cases watching : agent.view with
      | none => exact absurd falls.2 (by simp [step, remoteIndex, watching, View.start])
      | some view => simpa [FallsBack, Misses, step, remoteIndex, watching] using falls
  | watchNodes =>
      refine iff_of_false (fun falls => answered ?_) id
      cases watching : agent.view with
      | none => exact absurd falls (not_fallsBack_of_unwatched (by simp [step, watching]))
      | some view =>
          simpa [FallsBack, Misses, step, remoteIndex, watching, View.watchNodes] using falls
  | takeBlock =>
      cases watching : agent.view with
      | none =>
          exact iff_of_false (not_fallsBack_of_unwatched (by simp [step, watching]))
            (by simp [MakesFallBack, watching])
      | some view =>
          simp only [FallsBack, Misses, step, remoteIndex, watching, MakesFallBack, Option.map_some,
            Option.getD_some, Option.bind_some] at answered ⊢
          refine and_congr_right fun absent => ⟨fun first => ?_, fun made => ?_⟩
          · exact (View.firstNode_of_takeBlock first).resolve_left fun before =>
              answered ⟨absent, before⟩
          · exact View.firstNode_takeBlock_of_nextPut made.1 made.2
  | takeNode =>
      cases watching : agent.view with
      | none =>
          exact iff_of_false (not_fallsBack_of_unwatched (by simp [step, watching]))
            (by simp [MakesFallBack, watching])
      | some view =>
          simp only [FallsBack, Misses, step, remoteIndex, watching, MakesFallBack, Option.map_some,
            Option.getD_some, Option.bind_some, View.firstNode_takeNode] at answered ⊢
          refine and_congr_right fun absent => ?_
          cases view.nextDeparture with
          | none => simpa using fun before => answered ⟨absent, before⟩
          | some departed => simp

/-! ## What the agent's own changes announce -/

/-- A change of etcd announces a put of the key by this agent only, unless it is
another node's put of the key. -/
theorem nodeId_of_announced {action : PublisherAction} {op : EtcdOp} {etcdKey : String}
    {value : BlockLocationMeta}
    (notForeign : ∀ value lease, action ≠ .etcd (.put key value lease))
    (changes : agent.publisher.change nodeId nodeAddr action = some op)
    (announced : BlockEvent.put etcdKey value ∈ agent.publisher.etcd.blockEvents op)
    (named : blockHashOf etcdKey = some key) : value.nodeId = nodeId := by
  obtain ⟨prefixHash, lease, rfl, rfl⟩ := Etcd.put_of_mem_blockEvents announced
  rw [blockHashOf_blockKey, Option.some.injEq] at named
  subst named
  rcases Publisher.change_eq_put.mp changes with ⟨position, task, -, -, -, rfl, -⟩ | ⟨isForeign, -⟩
  · exact task.nodeId_record nodeId nodeAddr
  · exact absurd isForeign (notForeign value lease)

/-- What the agent knows about a key stays its own until another node puts the key. -/
theorem onlyOwn_step {action : WatchingAction}
    (notForeign : ∀ value lease, action ≠ .publisher (.etcd (.put key value lease)))
    (own : ∀ view ∈ agent.view, view.OnlyOwn nodeId key) :
    ∀ view ∈ (agent.step platform vnodesPerNode nodeId nodeAddr action).view,
      view.OnlyOwn nodeId key := by
  cases action with
  | publisher action =>
      simp only [step]
      cases changes : agent.publisher.change nodeId nodeAddr action with
      | none => exact own
      | some op =>
          simp only [Option.mem_map, forall_exists_index, and_imp, forall_apply_eq_imp_iff₂]
          intro view watching
          refine (own view watching).deliver (fun etcdKey value announced named => ?_) _
          exact nodeId_of_announced
            (fun record lease same => notForeign record lease (congrArg _ same))
            changes announced named
  | answer position => exact own
  | watchBlocks =>
      simp only [step, Option.mem_some_iff, forall_eq']
      cases watching : agent.view with
      | none => exact View.OnlyOwn.start platform vnodesPerNode nodeId key
      | some view => exact own view watching
  | watchNodes =>
      simp only [step, Option.mem_map, forall_exists_index, and_imp, forall_apply_eq_imp_iff₂]
      exact fun view watching => (own view watching).watchNodes _
  | takeBlock =>
      simp only [step, Option.mem_map, forall_exists_index, and_imp, forall_apply_eq_imp_iff₂]
      exact fun view watching => (own view watching).takeBlock
  | takeNode =>
      simp only [step, Option.mem_map, forall_exists_index, and_imp, forall_apply_eq_imp_iff₂]
      exact fun view watching => (own view watching).takeNode platform

theorem onlyOwn_run (geometry : Geometry) (capacity : Nat) {actions : List WatchingAction}
    (notForeign : ∀ action ∈ actions, ∀ value lease,
      action ≠ .publisher (.etcd (.put key value lease))) :
    ∀ view ∈ (run (step platform vnodesPerNode nodeId nodeAddr) (new geometry capacity)
      actions).view, view.OnlyOwn nodeId key :=
  @run_invariant_of_mem _ _ (step platform vnodesPerNode nodeId nodeAddr)
    (fun agent => ∀ view ∈ agent.view, view.OnlyOwn nodeId key) actions
    (fun _ action member => onlyOwn_step (notForeign action member)) (new geometry capacity)
    (by simp [new])

/-- Where nobody else is listed for a key and no Lookup of it falls back, a Lookup that
reads the remote index finds nothing. -/
theorem remoteReply_of_onlyOwn (own : ∀ view ∈ agent.view, view.OnlyOwn nodeId key)
    (misses : agent.Misses key) (answered : ¬ agent.FallsBack nodeId key) :
    agent.remoteReply key = ⟨false, [], false⟩ := by
  have only : agent.remoteIndex.OnlyOf key nodeId := by
    cases watching : agent.view with
    | none => simpa [remoteIndex, watching] using RemoteIndex.onlyOf_new key nodeId
    | some view => simpa [remoteIndex, watching] using (own view watching).listed
  have nobody : (agent.remoteIndex.lookup key).bind List.head? = none := by
    by_contra somebody
    obtain ⟨info, isFirst⟩ := Option.ne_none_iff_exists'.mp somebody
    refine answered ⟨misses, ?_⟩
    rw [RemoteIndex.firstNode, isFirst, Option.map_some, only.firstNode isFirst]
  simp only [remoteReply, nobody]

theorem notMem_index_delete (key : PrefixHash) :
    key ∉ (agent.step platform vnodesPerNode nodeId nodeAddr
      (.publisher (.agent (.deleteRemove key)))).publisher.system.index.map := by
  rw [step, Publisher.notMem_index_step]
  by_cases present : key ∈ agent.publisher.system.index.map
  · exact Or.inl ⟨present, rfl⟩
  · exact Or.inr ⟨present, id⟩

end Law

/-! ## Whole runs -/

/-- No Lookup along a run of a fresh agent, wherever its two reads fall, is answered with
a non-local hit on the agent itself exactly when no step of the run makes a key fall back
to the agent's own announcement. In such a run a key that is missing in the index, as a
deleted one is, or that an open Lookup has missed, is not found as long as no other node
has published it. -/
theorem no_self_reference_iff (platform : Platform) (vnodesPerNode : UInt32)
    (nodeId nodeAddr : String) (geometry : Geometry) (capacity : Nat)
    (actions : List WatchingAction) :
    let start := new geometry capacity
    let step := step platform vnodesPerNode nodeId nodeAddr
    let Allowed := fun agent action => ∀ key, ¬ agent.MakesFallBack nodeId key action
    ((∀ before after, actions = before ++ after →
        (run step start before).NoSelfReference platform nodeId) ↔
      Allows step Allowed start actions) ∧
    (Allows step Allowed start actions → ∀ before after key, actions = before ++ after →
      (∀ action ∈ before, ∀ value lease,
        action ≠ .publisher (.etcd (.put key value lease))) →
      (key ∉ (run step start before).publisher.system.index.map →
        (run step start before).reply platform nodeId "" key = .ok ⟨false, [], false⟩) ∧
      (key ∈ (run step start before).lookups →
        (run step start before).remoteReply key = ⟨false, [], false⟩)) ∧
    ∀ before key, key ∉ (run step start
      (before ++ [.publisher (.agent (.deleteRemove key))])).publisher.system.index.map := by
  intro start step Allowed
  have quiet : start.NoSelfReference platform nodeId :=
    (noSelfReference_iff platform nodeId start).mpr fun key => not_fallsBack_of_unwatched rfl
  have everywhere := @forall_prefix_iff_allows _ _ step
    (fun agent => agent.NoSelfReference platform nodeId) Allowed (by
      intro agent action noSelf
      rw [noSelfReference_iff] at noSelf ⊢
      exact forall_congr' fun key => not_congr (fallsBack_step_iff (noSelf key) action))
    start quiet actions
  refine ⟨everywhere, ?_, ?_⟩
  · intro allowed before after key split notForeign
    have noSelf := everywhere.mpr allowed before after split
    have nothing : (run step start before).Misses key →
        (run step start before).remoteReply key = ⟨false, [], false⟩ := fun misses =>
      remoteReply_of_onlyOwn (onlyOwn_run geometry capacity notForeign) misses
        ((noSelfReference_iff platform nodeId _).mp noSelf key)
    refine ⟨fun absent => ?_, fun isOpen => nothing (Or.inr isOpen)⟩
    rw [reply_eq, compositeKey_empty, AList.lookup_eq_none.mpr absent]
    exact congrArg Except.ok (nothing (Or.inl absent))
  · intro before key
    rw [run_append]
    exact @notMem_index_delete platform vnodesPerNode nodeId nodeAddr _ key

/-- An agent that starts: it is granted a lease, puts its node and creates its watches. -/
def startUp : List WatchingAction :=
  [.publisher .grant, .publisher (.etcd (.putNode ⟨"a", "a:50051"⟩ (some 0))), .watchBlocks,
    .watchNodes]

/-- The agent stores a block, publishes it, hears its own put and deletes the block. -/
def hearThenDelete : List WatchingAction :=
  startUp ++
    [.publisher (.agent (.storeWrite (.ofByte 7) [1])), .publisher (.agent (.storeInsert 0 0)),
      .publisher (.publish 0), .takeBlock, .publisher (.agent (.deleteRemove (.ofByte 7)))]

/-- A Lookup of the deleted block is answered with the agent's own announcement. -/
theorem deleted_block_found_at_self :
    let final := run (step Platform.release 1 "a" "a:50051") (new Geometry.twoBlocks 2)
      hearThenDelete
    final.reply Platform.release "a" "" (.ofByte 7) = .ok ⟨true, [⟨"a", 32, 32, 1⟩], false⟩ ∧
      ¬ final.NoSelfReference Platform.release "a" := by
  intro final
  have answered : final.reply Platform.release "a" "" (.ofByte 7) =
      .ok ⟨true, [⟨"a", 32, 32, 1⟩], false⟩ := by
    decide +kernel
  exact ⟨answered, fun noSelf =>
    noSelf.1 _ _ _ answered rfl rfl _ (List.mem_singleton.mpr rfl) rfl⟩

/-- Nothing needs to be deleted: a Lookup misses, the block is stored, published and heard
of, and only then the Lookup reads the remote index. -/
example :
    let final := run (step Platform.release 1 "a" "a:50051") (new Geometry.twoBlocks 2)
      (startUp ++
        [.publisher (.agent (.lookup (.ofByte 7))),
          .publisher (.agent (.storeWrite (.ofByte 7) [1])),
          .publisher (.agent (.storeInsert 0 0)), .publisher (.publish 0), .takeBlock])
    final.lookups = [.ofByte 7] ∧ PrefixHash.ofByte 7 ∈ final.publisher.system.index.map ∧
      final.remoteReply (.ofByte 7) = ⟨true, [⟨"a", 32, 32, 1⟩], false⟩ := by
  decide +kernel

end WatchingAgent

end CmxRdma.Agent
