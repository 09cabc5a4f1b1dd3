import CmxRdma.Agent.Cluster

/-!
Contract: what an agent's remote index keeps when nodes depart.

Owns: the history of an entry, for which departed nodes are gone once an agent has
taken all its events, and when the departure of one node hides another.

Does not own: the model of etcd and of the watches; see `Cluster`. A node departs when
the lease its key is bound to ends; its blocks go with the leases they are bound to.
-/

namespace CmxRdma.Agent

open CmxRdma.Lib.Transition

namespace Cluster

variable {platform : Platform} {vnodesPerNode : UInt32}

/-- A step that makes an agent forget nothing about a node under a key. -/
def Remembers (agent : String) (prefixHash : PrefixHash) (nodeId : String) (cluster : Cluster)
    (action : ClusterAction) : Prop :=
  ¬ cluster.Forgets agent prefixHash nodeId action

instance (agent : String) (prefixHash : PrefixHash) (nodeId : String) (cluster : Cluster)
    (action : ClusterAction) : Decidable (Remembers agent prefixHash nodeId cluster action) :=
  inferInstanceAs (Decidable (¬ _))

/-- The history of an entry: it was there and nothing made the agent forget it, or it
was announced and nothing did since. -/
theorem promised_run (start : Cluster) (actions : List ClusterAction) {agent : String}
    {prefixHash : PrefixHash} (info : RemoteBlockInfo) :
    (run (step platform vnodesPerNode) start actions).promised agent prefixHash info.nodeId =
        some info ↔
      start.promised agent prefixHash info.nodeId = some info ∧
          Allows (step platform vnodesPerNode) (Remembers agent prefixHash info.nodeId) start
            actions ∨
        ∃ before action after, actions = before ++ action :: after ∧
          (run (step platform vnodesPerNode) start before).Announces agent prefixHash info
            action ∧
          Allows (step platform vnodesPerNode) (Remembers agent prefixHash info.nodeId)
            (run (step platform vnodesPerNode) start (before ++ [action])) after :=
  @run_holds_iff _ _ _ (fun cluster => cluster.promised agent prefixHash info.nodeId = some info)
    _ _ (fun _ action => promised_step info rfl action) start actions

theorem announces_iff {cluster : Cluster} {agent : String} {prefixHash : PrefixHash}
    {info : RemoteBlockInfo} {action : ClusterAction} :
    cluster.Announces agent prefixHash info action ↔
      ∃ value lease, action = .etcd (.put prefixHash value lease) ∧ value.info = info ∧
        cluster.etcd.Accepts lease ∧ (cluster.views agent).isSome := by
  constructor
  · intro announces
    match action, announces with
    | .etcd (.put _ value lease), ⟨rfl, sameInfo, accepted, watching⟩ =>
        exact ⟨value, lease, rfl, sameInfo, accepted, watching⟩
  · rintro ⟨value, lease, rfl, sameInfo, accepted, watching⟩
    exact ⟨rfl, sameInfo, accepted, watching⟩

/-- The node was registered at some point of the run and is not at its end. -/
def Departed (platform : Platform) (vnodesPerNode : UInt32) (actions : List ClusterAction)
    (nodeId : String) : Prop :=
  (∃ before after, actions = before ++ after ∧
      (run (step platform vnodesPerNode) new before).etcd.Registered nodeId) ∧
    ¬ (run (step platform vnodesPerNode) new actions).etcd.Registered nodeId

/-- After each put the agent was told of by a node that has departed, some step made it
forget the node under that key. -/
def DepartedForgotten (platform : Platform) (vnodesPerNode : UInt32)
    (actions : List ClusterAction) (agent : String) : Prop :=
  ∀ before prefixHash value lease after,
    actions = before ++ .etcd (.put prefixHash value lease) :: after →
    (run (step platform vnodesPerNode) new before).etcd.Accepts lease →
    ((run (step platform vnodesPerNode) new before).views agent).isSome →
    Departed platform vnodesPerNode actions value.nodeId →
    ¬ Allows (step platform vnodesPerNode) (Remembers agent prefixHash value.nodeId)
      (run (step platform vnodesPerNode) new
        (before ++ [.etcd (.put prefixHash value lease)])) after

/-- Once an agent has taken all its events, its remote index names no departed node
exactly when each put of a departed node was followed by a step that made the agent
forget it: the end of the lease the key was bound to by then, or the node's departure
taken when no put of the node under the key was left in the block stream. -/
theorem departed_nodes_forgotten_iff (platform : Platform) (vnodesPerNode : UInt32)
    (actions : List ClusterAction) (agent : String)
    (settled : (run (step platform vnodesPerNode) new actions).Settled agent) :
    (∀ prefixHash entries,
        (run (step platform vnodesPerNode) new actions).lookup agent prefixHash = some entries →
        ∀ info ∈ entries, ¬ Departed platform vnodesPerNode actions info.nodeId) ↔
      DepartedForgotten platform vnodesPerNode actions agent := by
  constructor
  · intro noneDeparted before prefixHash value lease after split accepted watching departed
      remembers
    have said : (run (step platform vnodesPerNode) new actions).promised agent prefixHash
        value.nodeId = some value.info :=
      (promised_run new actions value.info).mpr (Or.inr ⟨before, _, after, split,
        announces_iff.mpr ⟨value, lease, rfl, rfl, accepted, watching⟩, remembers⟩)
    obtain ⟨entries, looked, member⟩ := listed_of_settled settled said
    exact noneDeparted prefixHash entries looked value.info member departed
  · intro allForgotten prefixHash entries looked info member departed
    obtain ⟨latest, sameNode, said⟩ :=
      (listed_iff_of_settled settled).mp ⟨entries, looked, info, member, rfl⟩
    rw [← sameNode] at said departed
    rcases (promised_run new actions latest).mp said with
      ⟨initially, -⟩ | ⟨before, action, after, split, announces, remembers⟩
    · exact absurd initially nofun
    · obtain ⟨value, lease, rfl, rfl, accepted, watching⟩ := announces_iff.mp announces
      exact allForgotten before prefixHash value lease after split accepted watching departed
        remembers

/-- Three agents have registered and the third watches. -/
def startUp : List ClusterAction :=
  register "a" 0 ++ register "b" 1 ++ register "c" 2 ++ [.watchBlocks "c", .watchNodes "c"]

/-- A node takes over a key and the first holder departs. The agent takes the
departure before the puts. -/
def takeover : List ClusterAction :=
  startUp ++ [.etcd (.put (.ofByte 7) ⟨"b", "b:50051", 0, 4096, 1⟩ (some 1)),
    .etcd (.put (.ofByte 7) ⟨"a", "a:50051", 0, 4096, 1⟩ (some 0)), .etcd (.finish 1),
    .takeNode "c", .takeBlock "c", .takeBlock "c"]

/-- No event is left that would remove the departed node. -/
theorem departed_node_survives :
    let final := run (step Platform.release 1) new takeover
    final.Settled "c" ∧ ¬ final.etcd.Registered "b" ∧
      final.lookup "c" (.ofByte 7) =
        some [⟨"b", "b:50051", 0, 4096, 1⟩, ⟨"a", "a:50051", 0, 4096, 1⟩] := by
  decide +kernel

/-- The condition fails on such a run. -/
theorem departed_nodes_forgotten_iff_of_takeover :
    (run (step Platform.release 1) new takeover).Settled "c" ∧
      ¬ DepartedForgotten Platform.release 1 takeover "c" := by
  have settled : (run (step Platform.release 1) new takeover).Settled "c" := by decide +kernel
  have looked : (run (step Platform.release 1) new takeover).lookup "c" (.ofByte 7) =
      some [⟨"b", "b:50051", 0, 4096, 1⟩, ⟨"a", "a:50051", 0, 4096, 1⟩] := by decide +kernel
  have departed : Departed Platform.release 1 takeover "b" := by
    refine ⟨⟨startUp, _, rfl, ?_⟩, ?_⟩ <;> decide +kernel
  refine ⟨settled, fun forgotten => ?_⟩
  exact (departed_nodes_forgotten_iff Platform.release 1 takeover "c" settled).mpr forgotten _ _
    looked ⟨"b", "b:50051", 0, 4096, 1⟩ List.mem_cons_self departed

/-- A put of a node under a key, told to an agent and not repeated, is what the agent
finds under the key once it has taken all its events exactly when no later step made
the agent forget it. -/
theorem holder_survives_iff (platform : Platform) (vnodesPerNode : UInt32)
    (before after : List ClusterAction) (agent : String) (prefixHash : PrefixHash)
    (value : BlockLocationMeta) (lease : Option Nat)
    (accepted : (run (step platform vnodesPerNode) new before).etcd.Accepts lease)
    (watching : ((run (step platform vnodesPerNode) new before).views agent).isSome)
    (last : ∀ later other, .etcd (.put prefixHash later other) ∈ after →
      later.nodeId ≠ value.nodeId)
    (settled : (run (step platform vnodesPerNode) new
      (before ++ .etcd (.put prefixHash value lease) :: after)).Settled agent) :
    (∃ entries, (run (step platform vnodesPerNode) new
        (before ++ .etcd (.put prefixHash value lease) :: after)).lookup agent prefixHash =
          some entries ∧
        value.info ∈ entries) ↔
      Allows (step platform vnodesPerNode) (Remembers agent prefixHash value.nodeId)
        (run (step platform vnodesPerNode) new
          (before ++ [.etcd (.put prefixHash value lease)])) after := by
  constructor
  · rintro ⟨entries, looked, member⟩
    obtain ⟨info, sameNode, said⟩ :=
      (listed_iff_of_settled settled).mp ⟨entries, looked, value.info, member, rfl⟩
    rw [← sameNode] at said
    -- the part of the run after the put: the entry was there, or was put again
    rw [List.append_cons, run_append] at said
    rcases (promised_run _ after info).mp said with
      ⟨-, remembers⟩ | ⟨middle, action, rest, rfl, announces, -⟩
    · rwa [sameNode] at remembers
    · obtain ⟨later, other, rfl, rfl, -, -⟩ := announces_iff.mp announces
      exact absurd sameNode (last later other (by simp))
  · intro remembers
    apply listed_of_settled settled
    exact (promised_run new _ value.info).mpr (Or.inr ⟨before, _, after, rfl,
      announces_iff.mpr ⟨value, lease, rfl, rfl, accepted, watching⟩, remembers⟩)

/-- The node that put a key last departs, and the agent loses the other holder with
it. -/
theorem holder_hidden_by_departure :
    let final := run (step Platform.release 1) new (startUp ++
      [.etcd (.put (.ofByte 7) ⟨"a", "a:50051", 0, 4096, 1⟩ (some 0)),
        .etcd (.put (.ofByte 7) ⟨"b", "b:50051", 0, 4096, 1⟩ (some 1)),
        .etcd (.finish 1), .takeBlock "c", .takeBlock "c", .takeBlock "c", .takeNode "c"])
    final.Settled "c" ∧ final.etcd.Registered "a" ∧ final.lookup "c" (.ofByte 7) = none := by
  decide +kernel

/-- The node that put the key first departs, and the other holder stays. -/
theorem holder_survives_earlier_holder :
    let value : BlockLocationMeta := ⟨"a", "a:50051", 0, 4096, 1⟩
    let before := startUp ++ [.etcd (.put (.ofByte 7) ⟨"b", "b:50051", 0, 4096, 1⟩ (some 1))]
    let after := [.etcd (.finish 1), .takeBlock "c", .takeBlock "c", .takeNode "c"]
    ∃ entries, (run (step Platform.release 1) new
      (before ++ .etcd (.put (.ofByte 7) value (some 0)) :: after)).lookup "c" (.ofByte 7) =
        some entries ∧ value.info ∈ entries := by
  intro value before after
  have accepted : (run (step Platform.release 1) new before).etcd.Accepts (some 0) := by
    decide +kernel
  have watching : ((run (step Platform.release 1) new before).views "c").isSome := by
    decide +kernel
  have last : ∀ later other, .etcd (.put (.ofByte 7) later other) ∈ after →
      later.nodeId ≠ value.nodeId := by
    intro later other member
    simp [after] at member
  have settled : (run (step Platform.release 1) new
      (before ++ .etcd (.put (.ofByte 7) value (some 0)) :: after)).Settled "c" := by
    decide +kernel
  refine (holder_survives_iff Platform.release 1 before after "c" (.ofByte 7) value (some 0) accepted
    watching last settled).mpr ?_
  decide +kernel

end Cluster

end CmxRdma.Agent
