import CmxRdma.Agent.Metadata

/-!
Contract: several agents that share one etcd and learn of each other through
watches.

Owns: the view an agent has of the others, its start-up in the order of `main`,
the two streams its watches wait on, the atomic steps of etcd and of the watch
loops, and the law that says which steps bring an entry of a remote index about
and which undo it.

Does not own: what an agent stores itself; see `Publishing`. Who asks for a change of
etcd is left open: any record can be put under any lease or without one, and any
lease can end at any time. A new process of an agent starts without watches; a view
outlives the lease of its agent, since nothing in the agent stops it.
-/

namespace CmxRdma.Agent

open CmxRdma.Lib.Transition

/-! ## Views -/

/-- The node watch: the revision it was created at and the events it has not
handed out yet, the oldest first. -/
structure NodeWatch where
  since : Nat
  stream : List NodeEvent

/-- What one agent knows of the others. The block watch is created before the node
watch, and neither is read before both exist. -/
structure View where
  remoteIndex : RemoteIndex
  hashRing : HashRing
  blockStream : List BlockEvent
  nodeWatch : Option NodeWatch

namespace View

/-- The agent has added itself to its ring and created the block watch. -/
def start (platform : Platform) (vnodesPerNode : UInt32) (agent : String) : View where
  remoteIndex := RemoteIndex.new
  hashRing := (HashRing.new vnodesPerNode).addNode platform agent
  blockStream := []
  nodeWatch := none

/-- The agent creates the node watch, unless it has. -/
def watchNodes (revision : Nat) (view : View) : View :=
  { view with nodeWatch := some (view.nodeWatch.getD ⟨revision, []⟩) }

/-- etcd adds the events of a change to the watches that exist. -/
def deliver (blockEvents : List BlockEvent) (nodeEvents : List NodeEvent) (view : View) : View :=
  { view with
    blockStream := view.blockStream ++ blockEvents
    nodeWatch := view.nodeWatch.map fun watch =>
      { watch with stream := watch.stream ++ nodeEvents } }

/-- `watch_blocks` takes its next event. -/
def takeBlock (view : View) : View :=
  match view.nodeWatch, view.blockStream with
  | some _, event :: rest =>
      { view with remoteIndex := watchBlocks view.remoteIndex event, blockStream := rest }
  | _, _ => view

/-- `watch_nodes` takes its next event. -/
def takeNode (platform : Platform) (view : View) : View :=
  match view.nodeWatch with
  | some ⟨since, event :: rest⟩ =>
      { view with
        remoteIndex := watchNodesIndex view.remoteIndex event
        hashRing := watchNodesRing platform view.hashRing event
        nodeWatch := some ⟨since, rest⟩ }
  | _ => view

/-- The node whose departure is the next event of the node watch. -/
def nextDeparture (view : View) : Option String :=
  match view.nodeWatch with
  | some ⟨_, .delete key :: _⟩ => some (nodeIdOf key)
  | _ => none

/-- Both watches exist and have nothing left to hand out. -/
def Drained (view : View) : Prop :=
  view.blockStream = [] ∧ view.nodeWatch.map NodeWatch.stream = some []

instance (view : View) : Decidable view.Drained := inferInstanceAs (Decidable (_ ∧ _))

/-! ## What the block stream will make of an entry -/

/-- A block event seen by one node's entry under one key. -/
def blockEffect (prefixHash : PrefixHash) (nodeId : String) (entry : Option RemoteBlockInfo) :
    BlockEvent → Option RemoteBlockInfo
  | .put key value =>
      if blockHashOf key = some prefixHash ∧ value.nodeId = nodeId then some value.info else entry
  | .delete key => if blockHashOf key = some prefixHash then none else entry

theorem entryOf_watchBlocks (remote : RemoteIndex) (event : BlockEvent) (prefixHash : PrefixHash)
    (nodeId : String) :
    (watchBlocks remote event).entryOf prefixHash nodeId =
      blockEffect prefixHash nodeId (remote.entryOf prefixHash nodeId) event := by
  cases event with
  | put key value =>
      simp only [watchBlocks, blockEffect]
      cases blockHashOf key with
      | none => simp
      | some found =>
          simp only [RemoteIndex.entryOf_insert, Option.some.injEq]
          rfl
  | delete key =>
      simp only [watchBlocks, blockEffect]
      cases blockHashOf key with
      | none => simp
      | some found => simp only [RemoteIndex.entryOf_remove, Option.some.injEq]

/-- What events make of an absent entry they make of any, unless they do not
concern it. -/
theorem foldl_blockEffect (prefixHash : PrefixHash) (nodeId : String) (events : List BlockEvent)
    (entry : Option RemoteBlockInfo) :
    events.foldl (blockEffect prefixHash nodeId) entry =
        events.foldl (blockEffect prefixHash nodeId) none ∨
      events.foldl (blockEffect prefixHash nodeId) entry = entry ∧
        events.foldl (blockEffect prefixHash nodeId) none = none := by
  induction events with
  | nil => exact Or.inr ⟨rfl, rfl⟩
  | cons event rest inductionHypothesis =>
      rw [List.foldl_cons, List.foldl_cons]
      cases event with
      | put key value =>
          simp only [blockEffect]
          split_ifs with concerns
          · exact Or.inl rfl
          · exact inductionHypothesis
      | delete key =>
          simp only [blockEffect]
          split_ifs with concerns
          · exact Or.inl rfl
          · exact inductionHypothesis

theorem foldl_blockEffect_deletes (prefixHash : PrefixHash) (nodeId : String)
    (deleted : List String) (entry : Option RemoteBlockInfo) :
    (deleted.map BlockEvent.delete).foldl (blockEffect prefixHash nodeId) entry =
      if ∃ key ∈ deleted, blockHashOf key = some prefixHash then none else entry := by
  induction deleted generalizing entry with
  | nil => simp
  | cons key rest inductionHypothesis =>
      rw [List.map_cons, List.foldl_cons, inductionHypothesis, blockEffect]
      by_cases same : blockHashOf key = some prefixHash
      · simp [same]
      · simp [same]

/-- What the index will say about a node under a key once the block stream is
consumed. -/
def promised (view : View) (prefixHash : PrefixHash) (nodeId : String) :
    Option RemoteBlockInfo :=
  view.blockStream.foldl (blockEffect prefixHash nodeId)
    (view.remoteIndex.entryOf prefixHash nodeId)

/-- What the block stream alone will make it say. -/
def pending (view : View) (prefixHash : PrefixHash) (nodeId : String) :
    Option RemoteBlockInfo :=
  view.blockStream.foldl (blockEffect prefixHash nodeId) none

theorem promised_of_drained {view : View} (drained : view.Drained) (prefixHash : PrefixHash)
    (nodeId : String) :
    view.promised prefixHash nodeId = view.remoteIndex.entryOf prefixHash nodeId := by
  rw [promised, drained.1, List.foldl_nil]

@[simp] theorem promised_start (platform : Platform) (vnodesPerNode : UInt32) (agent : String)
    (prefixHash : PrefixHash) (nodeId : String) :
    (start platform vnodesPerNode agent).promised prefixHash nodeId = none := rfl

@[simp] theorem promised_watchNodes (revision : Nat) (view : View) (prefixHash : PrefixHash)
    (nodeId : String) :
    (view.watchNodes revision).promised prefixHash nodeId = view.promised prefixHash nodeId := rfl

@[simp] theorem promised_deliver (blockEvents : List BlockEvent) (nodeEvents : List NodeEvent)
    (view : View) (prefixHash : PrefixHash) (nodeId : String) :
    (view.deliver blockEvents nodeEvents).promised prefixHash nodeId =
      blockEvents.foldl (blockEffect prefixHash nodeId) (view.promised prefixHash nodeId) :=
  List.foldl_append

@[simp] theorem promised_takeBlock (view : View) (prefixHash : PrefixHash) (nodeId : String) :
    view.takeBlock.promised prefixHash nodeId = view.promised prefixHash nodeId := by
  unfold takeBlock
  split
  · rename_i event rest _ streamEq
    rw [promised, promised, streamEq, List.foldl_cons, ← entryOf_watchBlocks]
  · rfl

theorem promised_takeNode (platform : Platform) (view : View) (prefixHash : PrefixHash)
    (nodeId : String) :
    (view.takeNode platform).promised prefixHash nodeId =
      if view.nextDeparture = some nodeId then view.pending prefixHash nodeId
      else view.promised prefixHash nodeId := by
  unfold takeNode nextDeparture
  cases view.nodeWatch with
  | none => rfl
  | some watch =>
      obtain ⟨since, stream⟩ := watch
      cases stream with
      | nil => rfl
      | cons event rest =>
          cases event with
          | put key => rfl
          | delete key =>
              simp only [promised, pending, watchNodesIndex, RemoteIndex.entryOf_removeNode,
                Option.some.injEq]
              split_ifs <;> rfl

end View

/-! ## Steps -/

structure Cluster where
  etcd : Etcd
  views : String → Option View

/-- One atomic step of etcd or of an agent, or the start of a new process of it. -/
inductive ClusterAction where
  | etcd (op : EtcdOp)
  | start (agent : String)
  | watchBlocks (agent : String)
  | watchNodes (agent : String)
  | takeBlock (agent : String)
  | takeNode (agent : String)
deriving DecidableEq

namespace Cluster

def new : Cluster where
  etcd := Etcd.new
  views := fun _ => none

def updateView (cluster : Cluster) (agent : String) (view : Option View) : Cluster :=
  { cluster with views := Function.update cluster.views agent view }

variable (platform : Platform) (vnodesPerNode : UInt32)

def step (cluster : Cluster) : ClusterAction → Cluster
  | .etcd op =>
      { etcd := cluster.etcd.apply op
        views := fun agent => (cluster.views agent).map
          (View.deliver (cluster.etcd.blockEvents op) (cluster.etcd.nodeEvents op)) }
  | .start agent => cluster.updateView agent none
  | .watchBlocks agent =>
      cluster.updateView agent
        (some ((cluster.views agent).getD (View.start platform vnodesPerNode agent)))
  | .watchNodes agent =>
      cluster.updateView agent
        ((cluster.views agent).map (View.watchNodes cluster.etcd.revision))
  | .takeBlock agent => cluster.updateView agent ((cluster.views agent).map View.takeBlock)
  | .takeNode agent => cluster.updateView agent ((cluster.views agent).map (View.takeNode platform))

section Views

variable {platform vnodesPerNode} {cluster : Cluster} {Holds : View → Prop}

theorem forall_views_updateView {agent : String} {updated : Option View}
    (holdsAll : ∀ other view, cluster.views other = some view → Holds view)
    (holds : ∀ view, updated = some view → Holds view) :
    ∀ other view, (cluster.updateView agent updated).views other = some view → Holds view := by
  intro other view viewEq
  simp only [updateView, Function.update_apply] at viewEq
  split_ifs at viewEq with isAgent
  · exact holds view viewEq
  · exact holdsAll other view viewEq

theorem forall_views_map {agent : String} {change : View → View}
    (holdsAll : ∀ other view, cluster.views other = some view → Holds view)
    (keeps : ∀ view, Holds view → Holds (change view)) :
    ∀ other view, (cluster.updateView agent ((cluster.views agent).map change)).views other =
      some view → Holds view := by
  refine forall_views_updateView holdsAll fun view viewEq => ?_
  obtain ⟨old, oldEq, rfl⟩ := Option.map_eq_some_iff.mp viewEq
  exact keeps old (holdsAll agent old oldEq)

/-- What every view of a cluster satisfies, every view does after a step: as long as a
view that starts satisfies it, and events that arrive and are taken keep it. -/
theorem forall_views_step {action : ClusterAction}
    (holdsAll : ∀ agent view, cluster.views agent = some view → Holds view)
    (starts : ∀ agent, action = .watchBlocks agent →
      Holds (View.start platform vnodesPerNode agent))
    (delivers : ∀ op, action = .etcd op → ∀ view, Holds view →
      Holds (view.deliver (cluster.etcd.blockEvents op) (cluster.etcd.nodeEvents op)))
    (watches : ∀ view, Holds view → Holds (view.watchNodes cluster.etcd.revision))
    (takesBlock : ∀ view, Holds view → Holds view.takeBlock)
    (takesNode : ∀ view, Holds view → Holds (view.takeNode platform)) :
    ∀ agent view, (cluster.step platform vnodesPerNode action).views agent = some view →
      Holds view := by
  cases action with
  | etcd op =>
      intro agent view viewEq
      obtain ⟨old, oldEq, rfl⟩ := Option.map_eq_some_iff.mp viewEq
      exact delivers op rfl old (holdsAll agent old oldEq)
  | start agent =>
      refine forall_views_updateView holdsAll fun view viewEq => ?_
      cases viewEq
  | watchBlocks agent =>
      refine forall_views_updateView holdsAll fun view viewEq => ?_
      obtain rfl := Option.some.inj viewEq
      cases existing : cluster.views agent with
      | none => exact starts agent rfl
      | some old => exact holdsAll agent old existing
  | watchNodes agent => exact forall_views_map holdsAll watches
  | takeBlock agent => exact forall_views_map holdsAll takesBlock
  | takeNode agent => exact forall_views_map holdsAll takesNode

end Views

/-- `register_node` of a process that etcd grants the lease to. -/
def register (nodeId : String) (lease : Nat) : List ClusterAction :=
  [.etcd .grant, .etcd (.putNode ⟨nodeId, nodeId ++ ":50051"⟩ (some lease))]

/-- What `RemoteIndex::lookup` answers at an agent. -/
def lookup (cluster : Cluster) (agent : String) (prefixHash : PrefixHash) :
    Option (List RemoteBlockInfo) :=
  (cluster.views agent).bind fun view => view.remoteIndex.lookup prefixHash

/-- The agent has taken every event its watches were given. -/
def Settled (cluster : Cluster) (agent : String) : Prop :=
  ∃ view ∈ cluster.views agent, view.Drained

instance (cluster : Cluster) (agent : String) : Decidable (cluster.Settled agent) :=
  inferInstanceAs (Decidable (∃ view ∈ cluster.views agent, view.Drained))

/-- What an agent's index will say about a node under a key. -/
def promised (cluster : Cluster) (agent : String) (prefixHash : PrefixHash) (nodeId : String) :
    Option RemoteBlockInfo :=
  (cluster.views agent).bind fun view => view.promised prefixHash nodeId

/-- A put that an agent will see, of a node's location under a key. -/
def Announces (cluster : Cluster) (agent : String) (prefixHash : PrefixHash)
    (info : RemoteBlockInfo) : ClusterAction → Prop
  | .etcd (.put putHash value lease) =>
      putHash = prefixHash ∧ value.info = info ∧ cluster.etcd.Accepts lease ∧
        (cluster.views agent).isSome
  | _ => False

instance (cluster : Cluster) (agent : String) (prefixHash : PrefixHash) (info : RemoteBlockInfo)
    (action : ClusterAction) : Decidable (cluster.Announces agent prefixHash info action) :=
  match action with
  | .etcd (.put _ _ _) => inferInstanceAs (Decidable (_ ∧ _ ∧ _ ∧ _))
  | .etcd .grant | .etcd (.putNode _ _) | .etcd (.finish _) | .start _ | .watchBlocks _
  | .watchNodes _ | .takeBlock _ | .takeNode _ => inferInstanceAs (Decidable False)

/-- The steps after which an agent will not have the entry of a node under a key
any more: the end of the lease the key is bound to, and the node's departure taken
by the agent when no put of the node under the key is left in its block stream;
also a new process of the agent, and a further put of the node. -/
def Forgets (cluster : Cluster) (agent : String) (prefixHash : PrefixHash) (nodeId : String) :
    ClusterAction → Prop
  | .etcd .grant => False
  | .etcd (.putNode _ _) => False
  | .etcd (.put putHash value lease) =>
      putHash = prefixHash ∧ value.nodeId = nodeId ∧ cluster.etcd.Accepts lease
  | .etcd (.finish lease) => cluster.etcd.leaseOf prefixHash = some lease
  | .start other => other = agent
  | .takeNode taker =>
      taker = agent ∧ (cluster.views agent).bind View.nextDeparture = some nodeId ∧
        (cluster.views agent).bind (View.pending · prefixHash nodeId) = none
  | .watchBlocks _ => False
  | .watchNodes _ => False
  | .takeBlock _ => False

instance (cluster : Cluster) (agent : String) (prefixHash : PrefixHash) (nodeId : String)
    (action : ClusterAction) : Decidable (cluster.Forgets agent prefixHash nodeId action) :=
  match action with
  | .etcd (.put _ _ _) => inferInstanceAs (Decidable (_ ∧ _ ∧ _))
  | .etcd (.finish _) => inferInstanceAs (Decidable (_ = _))
  | .start _ => inferInstanceAs (Decidable (_ = _))
  | .takeNode _ => inferInstanceAs (Decidable (_ ∧ _ ∧ _))
  | .etcd .grant | .etcd (.putNode _ _) | .watchBlocks _ | .watchNodes _ | .takeBlock _ =>
      inferInstanceAs (Decidable False)

/-! ## The law of an entry -/

variable {platform vnodesPerNode} {cluster : Cluster} {agent : String} {prefixHash : PrefixHash}
  {nodeId : String}

theorem promised_updateView (other : String) (view : Option View) :
    (cluster.updateView other view).promised agent prefixHash nodeId =
      if agent = other then view.bind fun view => view.promised prefixHash nodeId
      else cluster.promised agent prefixHash nodeId := by
  simp only [promised, updateView, Function.update_apply]
  split_ifs <;> rfl

/-- A step of an agent that does not change what its view promises does not change
what any view promises. -/
theorem promised_updateView_of_same {other : String} {view : Option View}
    (same : view.bind (fun view => view.promised prefixHash nodeId) =
      cluster.promised other prefixHash nodeId) :
    (cluster.updateView other view).promised agent prefixHash nodeId =
      cluster.promised agent prefixHash nodeId := by
  rw [promised_updateView]
  split_ifs with isAgent
  · rw [same, isAgent]
  · rfl

theorem promised_etcd (op : EtcdOp) :
    (cluster.step platform vnodesPerNode (.etcd op)).promised agent prefixHash nodeId =
      (cluster.views agent).bind fun view =>
        (cluster.etcd.blockEvents op).foldl (View.blockEffect prefixHash nodeId)
          (view.promised prefixHash nodeId) := by
  rw [promised, step]
  simp only [Option.bind_map]
  exact Option.bind_congr fun view _ => view.promised_deliver _ _ _ _

theorem promised_put (putHash : PrefixHash) (value : BlockLocationMeta) (lease : Option Nat) :
    (cluster.step platform vnodesPerNode (.etcd (.put putHash value lease))).promised agent
        prefixHash nodeId =
      if putHash = prefixHash ∧ value.nodeId = nodeId ∧ cluster.etcd.Accepts lease then
        (cluster.views agent).map fun _ => value.info
      else cluster.promised agent prefixHash nodeId := by
  rw [promised_etcd, promised, Etcd.blockEvents]
  by_cases accepted : cluster.etcd.Accepts lease
  · simp only [accepted, if_true, and_true, List.foldl_cons, List.foldl_nil, View.blockEffect,
      blockHashOf_blockKey, Option.some.injEq]
    split_ifs with concerns
    · exact Option.map_eq_bind.symm
    · rfl
  · simp [accepted]

theorem promised_finish (lease : Nat) :
    (cluster.step platform vnodesPerNode (.etcd (.finish lease))).promised agent prefixHash
        nodeId =
      if cluster.etcd.leaseOf prefixHash = some lease then none
      else cluster.promised agent prefixHash nodeId := by
  have deleted : (∃ key ∈ cluster.etcd.boundIn blockDirectory lease,
      blockHashOf key = some prefixHash) ↔ cluster.etcd.leaseOf prefixHash = some lease := by
    simp only [Etcd.mem_boundIn_blocks]
    constructor
    · rintro ⟨_, ⟨other, rfl, bound⟩, named⟩
      rw [blockHashOf_blockKey, Option.some.injEq] at named
      rwa [← named]
    · intro bound
      exact ⟨_, ⟨prefixHash, rfl, bound⟩, blockHashOf_blockKey prefixHash⟩
  rw [promised_etcd, promised, Etcd.blockEvents]
  simp only [View.foldl_blockEffect_deletes, deleted]
  split_ifs with bound
  · exact Option.bind_fun_none _
  · rfl

theorem promised_start (other : String) :
    (cluster.step platform vnodesPerNode (.start other)).promised agent prefixHash nodeId =
      if other = agent then none else cluster.promised agent prefixHash nodeId := by
  rw [step, promised_updateView, Option.bind_none]
  simp only [eq_comm]

theorem promised_takeNode (taker : String) :
    (cluster.step platform vnodesPerNode (.takeNode taker)).promised agent prefixHash nodeId =
      if taker = agent ∧ (cluster.views agent).bind View.nextDeparture = some nodeId then
        (cluster.views agent).bind (View.pending · prefixHash nodeId)
      else cluster.promised agent prefixHash nodeId := by
  rw [step, promised_updateView, promised]
  by_cases isTaker : agent = taker
  · subst isTaker
    cases cluster.views agent with
    | none => simp
    | some view => simp [View.promised_takeNode]
  · rw [if_neg isTaker, if_neg (fun both => isTaker both.1.symm)]

/-- Nothing else changes what an agent will say. -/
theorem promised_of_quiet {action : ClusterAction}
    (quiet : (∃ other, action = .watchBlocks other) ∨ (∃ other, action = .watchNodes other) ∨
      ∃ other, action = .takeBlock other) :
    (cluster.step platform vnodesPerNode action).promised agent prefixHash nodeId =
      cluster.promised agent prefixHash nodeId := by
  rcases quiet with ⟨other, rfl⟩ | ⟨other, rfl⟩ | ⟨other, rfl⟩ <;>
    refine promised_updateView_of_same ?_ <;> rw [promised] <;>
    cases cluster.views other <;> simp

theorem promised_of_silent {op : EtcdOp} (silent : cluster.etcd.blockEvents op = []) :
    (cluster.step platform vnodesPerNode (.etcd op)).promised agent prefixHash nodeId =
      cluster.promised agent prefixHash nodeId := by
  rw [promised_etcd, silent]
  rfl

/-- A put that waits in the block stream decides what the agent will say. -/
theorem pending_eq_promised
    (waits : (cluster.views agent).bind (View.pending · prefixHash nodeId) ≠ none) :
    (cluster.views agent).bind (View.pending · prefixHash nodeId) =
      cluster.promised agent prefixHash nodeId := by
  rw [promised]
  cases viewEq : cluster.views agent with
  | none => rfl
  | some view =>
      rw [viewEq, Option.bind_some] at waits
      rcases View.foldl_blockEffect prefixHash nodeId view.blockStream
        (view.remoteIndex.entryOf prefixHash nodeId) with same | ⟨-, absent⟩
      · exact same.symm
      · exact absurd absent waits

/-- An agent will say a location of a node after a step exactly when the step
announces it or it would have said so before and the step does not make it forget. -/
theorem promised_step (info : RemoteBlockInfo) (isOfNode : info.nodeId = nodeId)
    (action : ClusterAction) :
    (cluster.step platform vnodesPerNode action).promised agent prefixHash nodeId = some info ↔
      cluster.Announces agent prefixHash info action ∨
        cluster.promised agent prefixHash nodeId = some info ∧
          ¬ cluster.Forgets agent prefixHash nodeId action := by
  cases action with
  | etcd op =>
      cases op with
      | grant => simp [promised_of_silent (show cluster.etcd.blockEvents .grant = [] from rfl),
          Announces, Forgets]
      | putNode other lease =>
          simp [promised_of_silent (show cluster.etcd.blockEvents (.putNode other lease) = [] from
            rfl), Announces, Forgets]
      | put putHash value lease =>
          rw [promised_put]
          simp only [Announces, Forgets]
          split_ifs with concerns
          · obtain ⟨rfl, rfl, accepted⟩ := concerns
            simp [accepted, and_comm, Option.isSome_iff_exists]
          · have other : ¬ (putHash = prefixHash ∧ value.info = info ∧
                cluster.etcd.Accepts lease ∧ (cluster.views agent).isSome) := by
              rintro ⟨sameHash, rfl, accepted, -⟩
              exact concerns ⟨sameHash, isOfNode, accepted⟩
            simp [concerns, other]
      | finish lease =>
          rw [promised_finish]
          simp only [Announces, Forgets, false_or]
          split_ifs with ends <;> simp [ends]
  | start other =>
      rw [promised_start]
      simp only [Announces, Forgets, false_or]
      split_ifs with same <;> simp [same]
  | watchBlocks other => simp [promised_of_quiet, Announces, Forgets]
  | watchNodes other => simp [promised_of_quiet, Announces, Forgets]
  | takeBlock other => simp [promised_of_quiet, Announces, Forgets]
  | takeNode taker =>
      rw [promised_takeNode]
      simp only [Announces, Forgets, false_or]
      split_ifs with departs
      · simp only [departs, true_and]
        by_cases waits : (cluster.views agent).bind (View.pending · prefixHash nodeId) = none
        · simp [waits]
        · simp only [waits, not_false_iff, and_true]
          rw [pending_eq_promised waits]
      · rw [← and_assoc, not_and_or]
        simp [departs]

/-- A settled agent lists a node exactly when it would have said so. -/
theorem listed_iff_of_settled (settled : cluster.Settled agent) :
    (∃ entries, cluster.lookup agent prefixHash = some entries ∧
        ∃ info ∈ entries, info.nodeId = nodeId) ↔
      ∃ info, info.nodeId = nodeId ∧ cluster.promised agent prefixHash nodeId = some info := by
  obtain ⟨view, viewEq, drained⟩ := settled
  rw [lookup, promised, viewEq, Option.bind_some, Option.bind_some,
    View.promised_of_drained drained, ← RemoteIndex.isSome_entryOf_iff,
    Option.isSome_iff_exists]
  constructor
  · rintro ⟨info, found⟩
    exact ⟨info, RemoteIndex.nodeId_of_entryOf found, found⟩
  · rintro ⟨info, -, found⟩
    exact ⟨info, found⟩

/-- What a settled agent would have said, it lists. -/
theorem listed_of_settled (settled : cluster.Settled agent) {info : RemoteBlockInfo}
    (said : cluster.promised agent prefixHash nodeId = some info) :
    ∃ entries, cluster.lookup agent prefixHash = some entries ∧ info ∈ entries := by
  obtain ⟨view, viewEq, drained⟩ := settled
  rw [promised, viewEq, Option.bind_some, View.promised_of_drained drained] at said
  rw [lookup, viewEq, Option.bind_some]
  exact RemoteIndex.mem_of_entryOf said

end Cluster

end CmxRdma.Agent
