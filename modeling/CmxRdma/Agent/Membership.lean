import CmxRdma.Agent.Cluster

/-!
Contract: which nodes the agents of a cluster have in their rings.

Owns: the ring an agent will have once its node stream is consumed, the law that says
which steps bring a node into it and which take it out, the invariant that ties it to
the registrations etcd made after the agent's node watch, and the result on when the
rings of all live agents are the registered nodes.

Does not own: where a ring places a block; see `Placement`. An agent is live when it
is registered and has created its node watch. A node whose id starts with the
directory of the node keys is known to the others under another id.
-/

namespace CmxRdma.Agent

open CmxRdma.Lib.Transition

namespace HashRing

variable {platform : Platform} {hashRing : HashRing} {nodeId other : String}

@[simp] theorem mem_nodes_addNode :
    other ∈ (hashRing.addNode platform nodeId).nodes ↔ other = nodeId ∨ other ∈ hashRing.nodes := by
  rw [addNode]
  split_ifs with present
  · constructor
    · exact Or.inr
    · rintro (rfl | member)
      · exact present
      · exact member
  · simp [or_comm]

@[simp] theorem mem_nodes_removeNode :
    other ∈ (hashRing.removeNode nodeId).nodes ↔ other ≠ nodeId ∧ other ∈ hashRing.nodes := by
  simp [removeNode, and_comm]

end HashRing

namespace View

/-- The revision the node watch was created at. -/
def since (view : View) : Option Nat := view.nodeWatch.map NodeWatch.since

/-- The ring once the node stream is consumed. -/
def expectedRing (platform : Platform) (view : View) : HashRing :=
  match view.nodeWatch with
  | none => view.hashRing
  | some watch => watch.stream.foldl (watchNodesRing platform) view.hashRing

variable {platform : Platform}

@[simp] theorem since_deliver (blockEvents : List BlockEvent) (nodeEvents : List NodeEvent)
    (view : View) : (view.deliver blockEvents nodeEvents).since = view.since := by
  simp [since, deliver, Function.comp_def]

@[simp] theorem since_takeBlock (view : View) : view.takeBlock.since = view.since := by
  unfold takeBlock
  split <;> rfl

@[simp] theorem since_takeNode (view : View) : (view.takeNode platform).since = view.since := by
  unfold takeNode
  split
  · rename_i watchEq
    simp [since, watchEq]
  · rfl

@[simp] theorem since_watchNodes (revision : Nat) (view : View) :
    (view.watchNodes revision).since = some (view.since.getD revision) := by
  rw [since, since, watchNodes]
  cases view.nodeWatch <;> rfl

@[simp] theorem expectedRing_takeBlock (view : View) :
    view.takeBlock.expectedRing platform = view.expectedRing platform := by
  unfold takeBlock
  split <;> rfl

@[simp] theorem expectedRing_takeNode (view : View) :
    (view.takeNode platform).expectedRing platform = view.expectedRing platform := by
  unfold takeNode
  split
  · rename_i watchEq
    simp [expectedRing, watchEq]
  · rfl

@[simp] theorem expectedRing_watchNodes (revision : Nat) (view : View) :
    (view.watchNodes revision).expectedRing platform = view.expectedRing platform := by
  rw [expectedRing, expectedRing, watchNodes]
  cases view.nodeWatch <;> rfl

theorem expectedRing_deliver (blockEvents : List BlockEvent) (nodeEvents : List NodeEvent)
    (view : View) :
    (view.deliver blockEvents nodeEvents).expectedRing platform =
      if view.since.isSome then
        nodeEvents.foldl (watchNodesRing platform) (view.expectedRing platform)
      else view.expectedRing platform := by
  rw [expectedRing, expectedRing, deliver, since]
  cases view.nodeWatch with
  | none => rfl
  | some watch => exact List.foldl_append

/-- Deletions take out whatever node their keys read as. -/
theorem mem_nodes_foldl_deletes (hashRing : HashRing) (deleted : List String) (nodeId : String) :
    nodeId ∈ ((deleted.map NodeEvent.delete).foldl (watchNodesRing platform) hashRing).nodes ↔
      nodeId ∈ hashRing.nodes ∧ ∀ key ∈ deleted, nodeIdOf key ≠ nodeId := by
  induction deleted generalizing hashRing with
  | nil => simp
  | cons key rest inductionHypothesis =>
      rw [List.map_cons, List.foldl_cons, inductionHypothesis, watchNodesRing,
        HashRing.mem_nodes_removeNode, List.forall_mem_cons, and_assoc, and_left_comm, ne_comm]

end View

namespace Cluster

/-! ## The law of a node in a ring -/

/-- The revision an agent's node watch was created at. -/
def watchedSince (cluster : Cluster) (agent : String) : Option Nat :=
  (cluster.views agent).bind View.since

/-- The agent has created its node watch. -/
def WatchesNodes (cluster : Cluster) (agent : String) : Prop :=
  (cluster.watchedSince agent).isSome

/-- The agent has a node in its ring once its node stream is consumed. -/
def Expects (platform : Platform) (agent nodeId : String) (cluster : Cluster) : Prop :=
  ∃ view ∈ cluster.views agent, nodeId ∈ (view.expectedRing platform).nodes

/-- The steps that bring a node into the ring of an agent: the agent's start, for
itself, and a put of a key that reads as the node, once the agent watches. -/
def Introduces (agent nodeId : String) (cluster : Cluster) : ClusterAction → Prop
  | .etcd (.putNode info lease) =>
      nodeIdOf (nodeKey info.nodeId) = nodeId ∧ cluster.etcd.Accepts lease ∧
        cluster.WatchesNodes agent
  | .watchBlocks other => other = agent ∧ nodeId = agent ∧ cluster.views agent = none
  | _ => False

/-- The steps that take a node out again: the end of a lease that a key is bound to
which reads as the node, and a new process of the agent. -/
def Dismisses (agent nodeId : String) (cluster : Cluster) : ClusterAction → Prop
  | .etcd (.finish lease) =>
      cluster.WatchesNodes agent ∧
        ∃ key ∈ cluster.etcd.boundIn nodeDirectory lease, nodeIdOf key = nodeId
  | .start other => other = agent
  | _ => False

variable {platform : Platform} {vnodesPerNode : UInt32} {cluster : Cluster}

section Law

variable {agent nodeId : String}

theorem expects_updateView {other : String} {view : Option View} :
    (cluster.updateView other view).Expects platform agent nodeId ↔
      if agent = other then ∃ changed ∈ view, nodeId ∈ (changed.expectedRing platform).nodes
      else cluster.Expects platform agent nodeId := by
  simp only [Expects, updateView, Function.update_apply]
  split_ifs <;> rfl

/-- A step of an agent's view that keeps the ring it expects. -/
theorem expects_map_iff {other : String} {change : View → View}
    (same : ∀ view, (change view).expectedRing platform = view.expectedRing platform) :
    (cluster.updateView other ((cluster.views other).map change)).Expects platform agent nodeId ↔
      cluster.Expects platform agent nodeId := by
  rw [expects_updateView]
  split_ifs with isOther
  · subst isOther
    simp [Expects, same]
  · rfl

theorem expects_etcd (op : EtcdOp) :
    (cluster.step platform vnodesPerNode (.etcd op)).Expects platform agent nodeId ↔
      ∃ view ∈ cluster.views agent, nodeId ∈
        (if view.since.isSome then
          (cluster.etcd.nodeEvents op).foldl (watchNodesRing platform) (view.expectedRing platform)
        else view.expectedRing platform).nodes := by
  simp only [Expects, step, Option.mem_map]
  constructor
  · rintro ⟨_, ⟨view, viewEq, rfl⟩, member⟩
    exact ⟨view, viewEq, View.expectedRing_deliver _ _ view ▸ member⟩
  · rintro ⟨view, viewEq, member⟩
    exact ⟨_, ⟨view, viewEq, rfl⟩, (View.expectedRing_deliver _ _ view).symm ▸ member⟩

theorem expects_of_silent {op : EtcdOp} (silent : cluster.etcd.nodeEvents op = []) :
    (cluster.step platform vnodesPerNode (.etcd op)).Expects platform agent nodeId ↔
      cluster.Expects platform agent nodeId := by
  rw [expects_etcd, silent]
  simp [Expects]

theorem watchesNodes_iff {view : View} (viewEq : cluster.views agent = some view) :
    cluster.WatchesNodes agent ↔ view.since.isSome := by
  rw [WatchesNodes, watchedSince, viewEq, Option.bind_some]

theorem expects_putNode (info : NodeInfo) (lease : Option Nat) :
    (cluster.step platform vnodesPerNode (.etcd (.putNode info lease))).Expects platform agent
        nodeId ↔
      cluster.Introduces agent nodeId (.etcd (.putNode info lease)) ∨
        cluster.Expects platform agent nodeId := by
  by_cases accepted : cluster.etcd.Accepts lease
  · rw [expects_etcd, Etcd.nodeEvents, if_pos accepted, Introduces, Expects]
    cases viewEq : cluster.views agent with
    | none => simp [WatchesNodes, watchedSince, viewEq]
    | some view =>
        rw [watchesNodes_iff viewEq]
        by_cases watching : view.since.isSome
        · simp only [watching, accepted, watchNodesRing, if_true, and_true, Option.mem_some_iff,
            exists_eq_left', List.foldl_cons, List.foldl_nil,
            HashRing.mem_nodes_addNode]
          exact or_congr eq_comm Iff.rfl
        · simp [watching]
  · have silent : cluster.etcd.nodeEvents (.putNode info lease) = [] := if_neg accepted
    rw [expects_of_silent silent, Introduces]
    simp [accepted]

theorem expects_finish (lease : Nat) :
    (cluster.step platform vnodesPerNode (.etcd (.finish lease))).Expects platform agent nodeId ↔
      cluster.Expects platform agent nodeId ∧
        ¬ cluster.Dismisses agent nodeId (.etcd (.finish lease)) := by
  rw [expects_etcd, Etcd.nodeEvents, Dismisses, Expects]
  cases viewEq : cluster.views agent with
  | none => simp
  | some view =>
      rw [watchesNodes_iff viewEq]
      by_cases watching : view.since.isSome
      · simp [watching, View.mem_nodes_foldl_deletes]
      · simp [watching]

theorem expects_watchBlocks (other : String) :
    (cluster.step platform vnodesPerNode (.watchBlocks other)).Expects platform agent nodeId ↔
      cluster.Introduces agent nodeId (.watchBlocks other) ∨
        cluster.Expects platform agent nodeId := by
  rw [step, expects_updateView, Introduces]
  split_ifs with isOther
  · subst isOther
    cases viewEq : cluster.views agent with
    | none => simp [Expects, viewEq, View.start, View.expectedRing, HashRing.new]
    | some view => simp [Expects, viewEq]
  · simp [Ne.symm isOther]

theorem expects_watchNodes (other : String) :
    (cluster.step platform vnodesPerNode (.watchNodes other)).Expects platform agent nodeId ↔
      cluster.Expects platform agent nodeId := by
  rw [step, expects_map_iff (View.expectedRing_watchNodes _)]

/-- An agent expects a node after a step exactly when the step introduces the node, or
the agent expected it before and the step does not dismiss it. -/
theorem expects_step (agent nodeId : String) (cluster : Cluster) (action : ClusterAction) :
    (cluster.step platform vnodesPerNode action).Expects platform agent nodeId ↔
      cluster.Introduces agent nodeId action ∨
        cluster.Expects platform agent nodeId ∧ ¬ cluster.Dismisses agent nodeId action := by
  cases action with
  | etcd op =>
      cases op with
      | grant =>
          have silent : cluster.etcd.nodeEvents .grant = [] := rfl
          simp only [expects_of_silent silent, Introduces, Dismisses, false_or, not_false_iff,
            and_true]
      | putNode info lease =>
          simp only [expects_putNode, Dismisses, not_false_iff, and_true]
      | put prefixHash value lease =>
          have silent : cluster.etcd.nodeEvents (.put prefixHash value lease) = [] := rfl
          simp only [expects_of_silent silent, Introduces, Dismisses, false_or, not_false_iff,
            and_true]
      | finish lease => simp only [expects_finish, Introduces, false_or]
  | start other =>
      simp only [step, expects_updateView, Introduces, Dismisses, false_or]
      split_ifs with isOther
      · simp [isOther]
      · simp [Ne.symm isOther]
  | watchBlocks other => simp only [expects_watchBlocks, Dismisses, not_false_iff, and_true]
  | watchNodes other =>
      simp only [expects_watchNodes, Introduces, Dismisses, false_or, not_false_iff, and_true]
  | takeBlock other =>
      simp only [step, expects_map_iff View.expectedRing_takeBlock, Introduces, Dismisses,
        false_or, not_false_iff, and_true]
  | takeNode other =>
      simp only [step, expects_map_iff View.expectedRing_takeNode, Introduces, Dismisses,
        false_or, not_false_iff, and_true]

end Law

/-- A step of the run introduced the node to the agent, and none has dismissed it
since. -/
def Introduced (platform : Platform) (vnodesPerNode : UInt32) (actions : List ClusterAction)
    (agent nodeId : String) : Prop :=
  ∃ before action after, actions = before ++ action :: after ∧
    (run (step platform vnodesPerNode) new before).Introduces agent nodeId action ∧
    Allows (step platform vnodesPerNode) (fun cluster action => ¬ cluster.Dismisses agent nodeId
      action) (run (step platform vnodesPerNode) new (before ++ [action])) after

/-- The history of a node in the ring of an agent. -/
theorem expects_run (platform : Platform) (vnodesPerNode : UInt32)
    (actions : List ClusterAction) (agent nodeId : String) :
    (run (step platform vnodesPerNode) new actions).Expects platform agent nodeId ↔
      Introduced platform vnodesPerNode actions agent nodeId := by
  have history := @run_holds_iff _ _ (step platform vnodesPerNode)
    (Expects platform agent nodeId) _ _ (expects_step agent nodeId) new actions
  refine history.trans (or_iff_right ?_)
  rintro ⟨⟨view, absent, -⟩, -⟩
  cases absent

/-! ## Registrations after the watch -/

/-- A registered node whose key was put after an agent's node watch was created. -/
def Follows (cluster : Cluster) (agent nodeId : String) : Prop :=
  cluster.etcd.Registered nodeId ∧
    ∃ since ∈ cluster.watchedSince agent, since < cluster.etcd.nodeRevision nodeId

/-- What holds of every reachable cluster of plain nodes. -/
structure Consistent (platform : Platform) (cluster : Cluster) : Prop where
  plain : ∀ nodeId, cluster.etcd.Registered nodeId → PlainId nodeId
  putBefore : ∀ nodeId, cluster.etcd.nodeRevision nodeId ≤ cluster.etcd.revision
  watchedBefore : ∀ agent, ∀ since ∈ cluster.watchedSince agent, since ≤ cluster.etcd.revision
  /-- An agent expects the other nodes whose keys were put after its watch was created. -/
  others : ∀ agent nodeId, nodeId ≠ agent →
    (cluster.Expects platform agent nodeId ↔ cluster.Follows agent nodeId)
  /-- An agent expects itself unless it has seen its own key go. -/
  own : ∀ agent, (cluster.views agent).isSome →
    cluster.etcd.Registered agent ∨ cluster.watchedSince agent = none →
    cluster.Expects platform agent agent

theorem new_consistent (platform : Platform) : new.Consistent platform where
  plain := by
    intro nodeId registered
    exact absurd registered (AList.notMem_empty _)
  putBefore := fun _ => Nat.le_refl _
  watchedBefore := by
    intro agent since watched
    cases watched
  others := by
    intro agent nodeId _
    refine iff_of_false ?_ ?_
    · rintro ⟨view, absent, -⟩
      cases absent
    · rintro ⟨registered, -⟩
      exact AList.notMem_empty _ registered
  own := by
    intro agent watching
    cases watching

theorem watchedSince_updateView {agent other : String} {view : Option View} :
    (cluster.updateView other view).watchedSince agent =
      if agent = other then view.bind View.since else cluster.watchedSince agent := by
  simp only [watchedSince, updateView, Function.update_apply]
  split_ifs <;> rfl

theorem isSome_views_updateView {agent other : String} {view : Option View}
    (same : view.isSome = (cluster.views other).isSome) :
    ((cluster.updateView other view).views agent).isSome = (cluster.views agent).isSome := by
  simp only [updateView, Function.update_apply]
  split_ifs with isOther
  · rw [same, isOther]
  · rfl

theorem watchedSince_etcd (op : EtcdOp) (agent : String) :
    (cluster.step platform vnodesPerNode (.etcd op)).watchedSince agent =
      cluster.watchedSince agent := by
  simp only [watchedSince, step, Option.bind_map]
  exact Option.bind_congr fun view _ => view.since_deliver _ _

/-- A step of a view that keeps its watch, its ring and the existence of every view. -/
theorem Consistent.of_same_views (consistent : cluster.Consistent platform) {after : Cluster}
    (sameEtcd : after.etcd = cluster.etcd)
    (sameSince : ∀ agent, after.watchedSince agent = cluster.watchedSince agent)
    (sameViews : ∀ agent, (after.views agent).isSome = (cluster.views agent).isSome)
    (sameRing : ∀ agent nodeId, after.Expects platform agent nodeId ↔
      cluster.Expects platform agent nodeId) :
    after.Consistent platform where
  plain := sameEtcd ▸ consistent.plain
  putBefore := sameEtcd ▸ consistent.putBefore
  watchedBefore := by
    intro agent
    rw [sameSince, sameEtcd]
    exact consistent.watchedBefore agent
  others := by
    intro agent nodeId different
    rw [sameRing, Follows, sameSince, sameEtcd]
    exact consistent.others agent nodeId different
  own := by
    intro agent watching
    rw [sameViews] at watching
    rw [sameRing, sameSince, sameEtcd]
    exact consistent.own agent watching

/-- A change of etcd keeps a cluster consistent when the agents that watch are told of
the difference it makes to the nodes. -/
theorem Consistent.etcd (consistent : cluster.Consistent platform) {op : EtcdOp}
    (plain : ∀ nodeId, (cluster.etcd.apply op).Registered nodeId → PlainId nodeId)
    (putBefore : ∀ nodeId, (cluster.etcd.apply op).nodeRevision nodeId ≤
      (cluster.etcd.apply op).revision)
    (others : ∀ agent nodeId, nodeId ≠ agent →
      ((cluster.step platform vnodesPerNode (.etcd op)).Expects platform agent nodeId ↔
        (cluster.step platform vnodesPerNode (.etcd op)).Follows agent nodeId))
    (own : ∀ agent, (cluster.views agent).isSome →
      (cluster.etcd.apply op).Registered agent ∨ cluster.watchedSince agent = none →
      (cluster.step platform vnodesPerNode (.etcd op)).Expects platform agent agent) :
    (cluster.step platform vnodesPerNode (.etcd op)).Consistent platform where
  plain := plain
  putBefore := putBefore
  watchedBefore := by
    intro agent since watched
    rw [watchedSince_etcd] at watched
    exact (consistent.watchedBefore agent since watched).trans
      (cluster.etcd.revision_le_apply op)
  others := others
  own := by
    intro agent watching
    rw [watchedSince_etcd]
    exact own agent (by simpa [step] using watching)

/-- A change of etcd that leaves the nodes alone. -/
theorem Consistent.etcd_of_same_nodes (consistent : cluster.Consistent platform) {op : EtcdOp}
    (sameNodes : ∀ nodeId, (cluster.etcd.apply op).Registered nodeId ↔
      cluster.etcd.Registered nodeId)
    (sameRevision : (cluster.etcd.apply op).nodeRevision = cluster.etcd.nodeRevision)
    (silent : cluster.etcd.nodeEvents op = []) :
    (cluster.step platform vnodesPerNode (.etcd op)).Consistent platform := by
  refine consistent.etcd ?_ ?_ ?_ ?_
  · intro nodeId registered
    exact consistent.plain nodeId ((sameNodes nodeId).mp registered)
  · intro nodeId
    rw [sameRevision]
    exact (consistent.putBefore nodeId).trans (cluster.etcd.revision_le_apply op)
  · intro agent nodeId different
    rw [expects_of_silent silent, consistent.others agent nodeId different, Follows, Follows,
      watchedSince_etcd]
    exact and_congr (sameNodes nodeId).symm (by rw [step, sameRevision])
  · intro agent watching
    rw [expects_of_silent silent, sameNodes]
    exact consistent.own agent watching

/-- The put of a plain node's key introduces that node to the agents that watch. -/
theorem introduces_putNode {info : NodeInfo} {lease : Option Nat} (plain : PlainId info.nodeId)
    (accepted : cluster.etcd.Accepts lease) (agent nodeId : String) :
    cluster.Introduces agent nodeId (.etcd (.putNode info lease)) ↔
      nodeId = info.nodeId ∧ cluster.WatchesNodes agent := by
  simp only [Introduces, nodeIdOf_nodeKey plain, accepted, true_and, eq_comm]

theorem Consistent.putNode (consistent : cluster.Consistent platform) {info : NodeInfo}
    {lease : Option Nat} (plain : PlainId info.nodeId) (accepted : cluster.etcd.Accepts lease) :
    (cluster.step platform vnodesPerNode (.etcd (.putNode info lease))).Consistent platform := by
  obtain ⟨nodeRevisionEq, revisionEq⟩ := @Etcd.nodeRevision_putNode cluster.etcd info lease accepted
  refine consistent.etcd ?_ ?_ ?_ ?_
  · intro nodeId present
    rcases (Etcd.registered_putNode accepted nodeId).mp present with rfl | before
    · exact plain
    · exact consistent.plain nodeId before
  · intro nodeId
    rw [nodeRevisionEq, revisionEq, Function.update_apply]
    split_ifs
    · exact Nat.le_refl _
    · exact Nat.le_succ_of_le (consistent.putBefore nodeId)
  · intro agent nodeId different
    have older : ∀ since ∈ cluster.watchedSince agent, since < cluster.etcd.revision + 1 :=
      fun since watched => Nat.lt_succ_of_le (consistent.watchedBefore agent since watched)
    rw [expects_putNode, introduces_putNode plain accepted,
      consistent.others agent nodeId different, Follows, Follows, watchedSince_etcd]
    simp only [step, Etcd.registered_putNode accepted, nodeRevisionEq, Function.update_apply]
    by_cases isNew : nodeId = info.nodeId
    · simp only [isNew, true_and, true_or, if_true]
      constructor
      · rintro (watching | ⟨-, since, watched, -⟩)
        · obtain ⟨since, watched⟩ := Option.isSome_iff_exists.mp watching
          exact ⟨since, watched, older since watched⟩
        · exact ⟨since, watched, older since watched⟩
      · rintro ⟨since, watched, -⟩
        exact Or.inl (Option.isSome_of_mem watched)
    · simp only [isNew, false_and, false_or, if_false]
  · intro agent watching present
    rw [expects_putNode, introduces_putNode plain accepted]
    cases watched : cluster.watchedSince agent with
    | none => exact Or.inr (consistent.own agent watching (Or.inr watched))
    | some since =>
        rw [watched, or_iff_left (Option.some_ne_none since), Etcd.registered_putNode accepted]
          at present
        rcases present with isNew | before
        · exact Or.inl ⟨isNew, by rw [WatchesNodes, watched]; rfl⟩
        · exact Or.inr (consistent.own agent watching (Or.inl before))

/-- Every bound key is that of a plain node, so the watch reads it back. -/
theorem Consistent.dismisses_finish (consistent : cluster.Consistent platform) (lease : Nat)
    (agent nodeId : String) :
    cluster.Dismisses agent nodeId (.etcd (.finish lease)) ↔
      cluster.WatchesNodes agent ∧ nodeKey nodeId ∈ cluster.etcd.boundIn nodeDirectory lease := by
  refine and_congr_right fun _ => ⟨?_, fun bound => ?_⟩
  · rintro ⟨key, bound, named⟩
    obtain ⟨other, record, rfl, -⟩ := Etcd.mem_boundIn_nodes.mp bound
    rw [nodeIdOf_nodeKey (consistent.plain other (Etcd.registered_of_bound bound))] at named
    rwa [← named]
  · exact ⟨_, bound, nodeIdOf_nodeKey (consistent.plain nodeId (Etcd.registered_of_bound bound))⟩

theorem Consistent.finish (consistent : cluster.Consistent platform) (lease : Nat) :
    (cluster.step platform vnodesPerNode (.etcd (.finish lease))).Consistent platform := by
  refine consistent.etcd ?_ ?_ ?_ ?_
  · intro nodeId present
    exact consistent.plain nodeId ((Etcd.registered_finish nodeId).mp present).1
  · intro nodeId
    exact (consistent.putBefore nodeId).trans (cluster.etcd.revision_le_apply _)
  · intro agent nodeId different
    rw [expects_finish, consistent.dismisses_finish, consistent.others agent nodeId different,
      Follows, Follows, watchedSince_etcd]
    simp only [step, Etcd.registered_finish]
    constructor
    · rintro ⟨⟨present, since, watched, young⟩, stays⟩
      have watching : cluster.WatchesNodes agent := Option.isSome_of_mem watched
      exact ⟨⟨present, fun bound => stays ⟨watching, bound⟩⟩, since, watched, young⟩
    · rintro ⟨⟨present, unbound⟩, since, watched, young⟩
      exact ⟨⟨present, since, watched, young⟩, fun ends => unbound ends.2⟩
  · intro agent watching present
    rw [expects_finish, consistent.dismisses_finish]
    rcases present with present | unwatched
    · obtain ⟨before, unbound⟩ := (Etcd.registered_finish agent).mp present
      exact ⟨consistent.own agent watching (Or.inl before), fun ends => unbound ends.2⟩
    · refine ⟨consistent.own agent watching (Or.inr unwatched), fun ends => ?_⟩
      have watched := ends.1
      rw [WatchesNodes, unwatched] at watched
      cases watched

theorem Consistent.start (consistent : cluster.Consistent platform) (other : String) :
    (cluster.step platform vnodesPerNode (.start other)).Consistent platform where
  plain := consistent.plain
  putBefore := consistent.putBefore
  watchedBefore := by
    intro agent since watched
    rw [step, watchedSince_updateView] at watched
    split_ifs at watched
    · cases watched
    · exact consistent.watchedBefore agent since watched
  others := by
    intro agent nodeId different
    rw [Follows, step, expects_updateView, watchedSince_updateView]
    split_ifs
    · exact iff_of_false (by simp) (by simp)
    · exact consistent.others agent nodeId different
  own := by
    intro agent watching
    simp only [step, updateView, Function.update_apply] at watching
    split_ifs at watching with isOther
    · cases watching
    · rw [step, expects_updateView, watchedSince_updateView, if_neg isOther, if_neg isOther]
      exact consistent.own agent watching

theorem watchedSince_watchBlocks (other agent : String) :
    (cluster.step platform vnodesPerNode (.watchBlocks other)).watchedSince agent =
      cluster.watchedSince agent := by
  rw [step, watchedSince_updateView]
  split_ifs with isOther
  · rw [watchedSince, isOther]
    cases cluster.views other <;> rfl
  · rfl

/-- A node watch that is created starts at the revision of that moment. -/
theorem watchedSince_watchNodes (other agent : String) :
    (cluster.step platform vnodesPerNode (.watchNodes other)).watchedSince agent =
        cluster.watchedSince agent ∨
      cluster.watchedSince agent = none ∧
        (cluster.step platform vnodesPerNode (.watchNodes other)).watchedSince agent =
          some cluster.etcd.revision := by
  rw [step, watchedSince_updateView, watchedSince]
  split_ifs with isOther
  · rw [isOther]
    cases cluster.views other with
    | none => exact Or.inl rfl
    | some view =>
        simp only [Option.map_some, Option.bind_some, View.since_watchNodes]
        cases view.since with
        | none => exact Or.inr ⟨rfl, rfl⟩
        | some since => exact Or.inl rfl
  · exact Or.inl rfl

theorem Consistent.watchBlocks (consistent : cluster.Consistent platform) (other : String) :
    (cluster.step platform vnodesPerNode (.watchBlocks other)).Consistent platform where
  plain := consistent.plain
  putBefore := consistent.putBefore
  watchedBefore := by
    intro agent
    rw [watchedSince_watchBlocks]
    exact consistent.watchedBefore agent
  others := by
    intro agent nodeId different
    rw [expects_watchBlocks, Follows, watchedSince_watchBlocks, Introduces,
      or_iff_right fun introduces => different introduces.2.1]
    exact consistent.others agent nodeId different
  own := by
    intro agent watching present
    rw [watchedSince_watchBlocks] at present
    rw [expects_watchBlocks, Introduces]
    cases before : cluster.views agent with
    | some view =>
        exact Or.inr (consistent.own agent (Option.isSome_of_eq_some before) present)
    | none =>
        refine Or.inl ⟨?_, rfl, rfl⟩
        by_contra isOther
        simp [step, updateView, Function.update_of_ne (Ne.symm isOther), before] at watching

theorem Consistent.watchNodes (consistent : cluster.Consistent platform) (other : String) :
    (cluster.step platform vnodesPerNode (.watchNodes other)).Consistent platform where
  plain := consistent.plain
  putBefore := consistent.putBefore
  watchedBefore := by
    intro agent since watched
    rcases watchedSince_watchNodes other agent with same | ⟨-, young⟩
    · exact consistent.watchedBefore agent since (same ▸ watched)
    · rw [young] at watched
      exact (Option.some.inj watched).symm.le
  others := by
    intro agent nodeId different
    rw [expects_watchNodes, consistent.others agent nodeId different, Follows, Follows]
    refine and_congr_right fun _ => ?_
    rcases watchedSince_watchNodes other agent with same | ⟨unwatched, young⟩
    · rw [same]
      rfl
    · -- the watch is younger than every registration
      rw [unwatched, young]
      refine iff_of_false (by simp) ?_
      rintro ⟨since, isSince, younger⟩
      obtain rfl := Option.some.inj isSince
      exact absurd younger (Nat.not_lt.mpr (consistent.putBefore nodeId))
  own := by
    intro agent watching present
    rw [step, isSome_views_updateView (by simp)] at watching
    rw [expects_watchNodes]
    apply consistent.own agent watching
    rcases watchedSince_watchNodes other agent with same | ⟨unwatched, -⟩
    · rwa [same] at present
    · exact Or.inr unwatched

theorem Consistent.map (consistent : cluster.Consistent platform) (other : String)
    {change : View → View} (sameSince : ∀ view, (change view).since = view.since)
    (sameRing : ∀ view, (change view).expectedRing platform = view.expectedRing platform) :
    (cluster.updateView other ((cluster.views other).map change)).Consistent platform := by
  refine consistent.of_same_views rfl ?_ ?_ fun agent nodeId => expects_map_iff sameRing
  · intro agent
    rw [watchedSince_updateView]
    split_ifs with isOther
    · rw [watchedSince, isOther, Option.bind_map]
      exact Option.bind_congr fun view _ => sameSince view
    · rfl
  · intro agent
    exact isSome_views_updateView (by simp)

theorem Consistent.step (consistent : cluster.Consistent platform) {action : ClusterAction}
    (plain : ∀ info lease, action = .etcd (.putNode info lease) → PlainId info.nodeId) :
    (cluster.step platform vnodesPerNode action).Consistent platform := by
  cases action with
  | etcd op =>
      cases op with
      | grant =>
          exact consistent.etcd_of_same_nodes (Etcd.registered_apply_of_quiet nofun nofun) rfl rfl
      | putNode info lease =>
          by_cases accepted : cluster.etcd.Accepts lease
          · exact consistent.putNode (plain info lease rfl) accepted
          · refine consistent.etcd_of_same_nodes (Etcd.registered_apply_of_quiet ?_ nofun)
              (if_neg accepted) (if_neg accepted)
            rintro other otherLease ⟨⟩
            exact accepted
      | put prefixHash value lease =>
          exact consistent.etcd_of_same_nodes (Etcd.registered_apply_of_quiet nofun nofun) rfl rfl
      | finish lease => exact consistent.finish lease
  | start agent => exact consistent.start agent
  | watchBlocks agent => exact consistent.watchBlocks agent
  | watchNodes agent => exact consistent.watchNodes agent
  | takeBlock agent =>
      exact consistent.map agent View.since_takeBlock View.expectedRing_takeBlock
  | takeNode agent =>
      exact consistent.map agent View.since_takeNode View.expectedRing_takeNode

/-- Every run of plain nodes keeps the cluster consistent. -/
theorem run_consistent (platform : Platform) (vnodesPerNode : UInt32)
    {actions : List ClusterAction}
    (plain : ∀ info lease, .etcd (.putNode info lease) ∈ actions → PlainId info.nodeId) :
    (run (step platform vnodesPerNode) new actions).Consistent platform := by
  refine run_invariant_of_mem ?_ (new_consistent platform)
  intro cluster action inRun consistent
  refine consistent.step ?_
  rintro info lease rfl
  exact plain info lease inRun

/-! ## Convergence -/

/-- The agent is registered and has created its node watch. -/
structure Live (cluster : Cluster) (agent : String) (view : View) (since : Nat) : Prop where
  registered : cluster.etcd.Registered agent
  viewEq : cluster.views agent = some view
  sinceEq : view.since = some since

/-- The ring of an agent that has taken its node events is the one it expects. -/
theorem Live.mem_nodes_iff {agent : String} {view : View} {since : Nat}
    (live : cluster.Live agent view since)
    (drained : ∀ watch, view.nodeWatch = some watch → watch.stream = []) (nodeId : String) :
    nodeId ∈ view.hashRing.nodes ↔ cluster.Expects platform agent nodeId := by
  have sameRing : view.expectedRing platform = view.hashRing := by
    obtain ⟨watch, watchEq, -⟩ := Option.map_eq_some_iff.mp live.sinceEq
    simp [View.expectedRing, watchEq, drained watch watchEq]
  rw [Expects, live.viewEq, ← sameRing]
  simp

/-- In a run of plain nodes a live agent expects itself and the registered nodes whose
keys were put after its node watch was created. -/
theorem Consistent.expects_of_live (consistent : cluster.Consistent platform) {agent : String}
    {view : View} {since : Nat} (live : cluster.Live agent view since) (nodeId : String) :
    cluster.Expects platform agent nodeId ↔
      nodeId = agent ∨
        cluster.etcd.Registered nodeId ∧ since < cluster.etcd.nodeRevision nodeId := by
  have watched : cluster.watchedSince agent = some since := by
    rw [watchedSince, live.viewEq, Option.bind_some, live.sinceEq]
  by_cases isAgent : nodeId = agent
  · subst isAgent
    refine iff_of_true ?_ (Or.inl rfl)
    exact consistent.own nodeId (Option.isSome_of_eq_some live.viewEq) (Or.inl live.registered)
  · rw [consistent.others agent nodeId isAgent, or_iff_right isAgent, Follows, watched]
    simp

/-- Once the node events are taken, the ring of every live agent has the registered
nodes exactly when these are the nodes the agent was introduced to and that were not
dismissed since. If every node id is plain, that is the case exactly when the key of
every other registered node was put after the agent's node watch was created. -/
theorem rings_converge_iff (platform : Platform) (vnodesPerNode : UInt32)
    (actions : List ClusterAction)
    (drained : ∀ agent view watch,
      (run (step platform vnodesPerNode) new actions).views agent = some view →
        view.nodeWatch = some watch → watch.stream = []) :
    let final := run (step platform vnodesPerNode) new actions
    let Converged := ∀ agent view since, final.Live agent view since →
      ∀ nodeId, nodeId ∈ view.hashRing.nodes ↔ final.etcd.Registered nodeId
    (Converged ↔ ∀ agent view since, final.Live agent view since → ∀ nodeId,
      Introduced platform vnodesPerNode actions agent nodeId ↔ final.etcd.Registered nodeId) ∧
    ((∀ info lease, .etcd (.putNode info lease) ∈ actions → PlainId info.nodeId) →
      (Converged ↔ ∀ agent view since, final.Live agent view since → ∀ nodeId,
        final.etcd.Registered nodeId → nodeId ≠ agent →
          since < final.etcd.nodeRevision nodeId)) := by
  intro final Converged
  have ringEq : ∀ {agent view since}, final.Live agent view since → ∀ nodeId,
      nodeId ∈ view.hashRing.nodes ↔ final.Expects platform agent nodeId :=
    fun live => live.mem_nodes_iff fun watch => drained _ _ watch live.viewEq
  constructor
  · refine forall₃_congr fun agent view since => forall_congr' fun live => ?_
    refine forall_congr' fun nodeId => ?_
    rw [ringEq live, expects_run]
  · intro plain
    have consistent : final.Consistent platform := run_consistent platform vnodesPerNode plain
    refine forall₃_congr fun agent view since => forall_congr' fun live => ?_
    refine forall_congr' fun nodeId => ?_
    rw [ringEq live, consistent.expects_of_live live]
    constructor
    · intro sameNodes registered isOther
      rcases sameNodes.mpr registered with isAgent | ⟨-, young⟩
      · exact absurd isAgent isOther
      · exact young
    · intro young
      constructor
      · rintro (rfl | ⟨registered, -⟩)
        · exact live.registered
        · exact registered
      · intro registered
        by_cases isAgent : nodeId = agent
        · exact Or.inl isAgent
        · exact Or.inr ⟨registered, young registered isAgent⟩

/-- A node that registers again is put again, and the agents that watch by then hear of
it. -/
example :
    let final := run (step Platform.release 1) new (register "b" 0 ++ register "a" 1 ++
      [.watchBlocks "a", .watchNodes "a"] ++ register "b" 2 ++ [.takeNode "a"])
    (final.views "a").map (fun view => view.hashRing.nodes) = some ["a", "b"] := by
  decide +kernel

/-- Two live agents that each registered before they watched do not both know the other:
the one whose key was put first is missing at the other. -/
theorem two_live_agents_disagree (consistent : cluster.Consistent platform)
    {first second : String} {firstView secondView : View} {firstSince secondSince : Nat}
    (different : first ≠ second) (firstLive : cluster.Live first firstView firstSince)
    (secondLive : cluster.Live second secondView secondSince)
    (firstOwn : cluster.etcd.nodeRevision first ≤ firstSince)
    (secondOwn : cluster.etcd.nodeRevision second ≤ secondSince)
    (firstDrained : ∀ watch, firstView.nodeWatch = some watch → watch.stream = [])
    (secondDrained : ∀ watch, secondView.nodeWatch = some watch → watch.stream = []) :
    second ∉ firstView.hashRing.nodes ∨ first ∉ secondView.hashRing.nodes := by
  by_contra bothKnown
  rw [not_or, not_not, not_not, firstLive.mem_nodes_iff firstDrained,
    secondLive.mem_nodes_iff secondDrained, consistent.expects_of_live firstLive,
    consistent.expects_of_live secondLive, or_iff_right different.symm,
    or_iff_right different] at bothKnown
  obtain ⟨⟨-, secondYoung⟩, -, firstYoung⟩ := bothKnown
  omega

/-- The agent that starts second never learns of the first. -/
theorem second_agent_misses_first :
    let final := run (step Platform.release 1) new
      (register "a" 0 ++ [.watchBlocks "a", .watchNodes "a"] ++
        register "b" 1 ++ [.watchBlocks "b", .watchNodes "b", .takeNode "a"])
    final.etcd.Registered "a" ∧ final.etcd.Registered "b" ∧
      final.Settled "a" ∧ final.Settled "b" ∧
      (final.views "a").map (fun view => view.hashRing.nodes) = some ["a", "b"] ∧
      (final.views "b").map (fun view => view.hashRing.nodes) = some ["b"] := by
  decide +kernel

/-- An agent that never created a watch has no view. -/
theorem views_eq_none_of_not_started {actions : List ClusterAction} {agent : String}
    (never : .watchBlocks agent ∉ actions) :
    (run (step platform vnodesPerNode) new actions).views agent = none := by
  refine @run_invariant_of_mem _ _ _ (fun cluster => cluster.views agent = none) actions ?_ new rfl
  intro cluster action inRun absent
  cases action with
  | etcd op => simp [step, absent]
  | watchBlocks other =>
      have different : agent ≠ other := by
        rintro rfl
        exact never inRun
      simp [step, updateView, Function.update_of_ne different, absent]
  | start other | watchNodes other | takeBlock other | takeNode other =>
      simp only [step, updateView, Function.update_apply]
      split_ifs with same
      · simp [← same, absent]
      · exact absent

/-- One live agent and a node that registered after it. -/
theorem rings_converge_iff_of_later_node :
    let actions := register "a" 0 ++ [.watchBlocks "a", .watchNodes "a"] ++ register "b" 1 ++
      [.takeNode "a"]
    let final := run (step Platform.release 1) new actions
    final.etcd.Registered "b" ∧ ∀ agent view since, final.Live agent view since →
      ∀ nodeId, nodeId ∈ view.hashRing.nodes ↔ final.etcd.Registered nodeId := by
  intro actions final
  have plain : ∀ info lease, .etcd (.putNode info lease) ∈ actions → PlainId info.nodeId := by
    intro info lease member
    obtain ⟨rfl, -⟩ | ⟨rfl, -⟩ : info = ⟨"a", "a" ++ ":50051"⟩ ∧ lease = some 0 ∨
        info = ⟨"b", "b" ++ ":50051"⟩ ∧ lease = some 1 := by
      simpa [actions, register] using member
    · decide
    · decide
  have onlyFirst : ∀ agent view, final.views agent = some view → agent = "a" := by
    intro agent view viewEq
    by_contra isOther
    have absent := @views_eq_none_of_not_started Platform.release 1 actions agent
      (by simp [actions, register, isOther])
    rw [viewEq] at absent
    exact absurd absent nofun
  have watchOfFirst : (final.views "a").map (fun view =>
      view.nodeWatch.map fun watch => (watch.since, watch.stream)) = some (some (1, [])) := by
    decide +kernel
  have watchEq : ∀ agent view watch, final.views agent = some view →
      view.nodeWatch = some watch → watch.since = 1 ∧ watch.stream = [] := by
    intro agent view watch viewEq watchEq
    obtain rfl := onlyFirst agent view viewEq
    simpa [viewEq, watchEq] using watchOfFirst
  refine ⟨by decide +kernel, ((rings_converge_iff Platform.release 1 actions
    fun agent view watch viewEq isWatch => (watchEq agent view watch viewEq isWatch).2).2
      plain).mpr ?_⟩
  intro agent view since live nodeId registered isOther
  obtain ⟨watch, isWatch, rfl⟩ := Option.map_eq_some_iff.mp live.sinceEq
  rw [(watchEq agent view watch live.viewEq isWatch).1]
  obtain rfl := onlyFirst agent view live.viewEq
  have keysEq : final.etcd.store.records.keys = [nodeKey "b", nodeKey "a"] := by decide +kernel
  have member : nodeKey nodeId ∈ final.etcd.store.records.keys := registered
  rw [keysEq] at member
  rcases List.mem_pair.mp member with isLater | isFirst
  · rw [nodeKey_injective isLater]
    decide +kernel
  · exact absurd (nodeKey_injective isFirst) isOther

end Cluster

end CmxRdma.Agent
