import CmxRdma.Agent.Cluster
import CmxRdma.Agent.Preference

/-!
Contract: what the hash rings of two agents have in common when their node sets differ.

Owns: the common part of the preference lists of two rings, the nodes a run of the
cluster can bring onto any ring, and the agreement of all agents on the order of the
nodes they share, at every moment of every run.

Does not own: which nodes the rings have; see `Membership`.
-/

namespace CmxRdma.Agent

open CmxRdma.Lib
open CmxRdma.Lib.Transition

/-! ## Two rings -/

namespace HashRing

variable {platform : Platform} {vnodesPerNode : UInt32} {left right : HashRing}
  {leftLive rightLive : Finset String}

/-- A ring cut down to some nodes prefers them in the order of the whole ring. -/
theorem preference_of_retain {whole part : HashRing} {keep : String → Bool}
    (cut : part.ring = whole.ring.retain keep) (platform : Platform) (prefixHash : PrefixHash) :
    part.preference platform prefixHash =
      (whole.preference platform prefixHash).filter keep := by
  have mapped : ((whole.ring.clockwise (position platform prefixHash)).filter
        fun entry => keep entry.2).map Prod.snd =
      ((whole.ring.clockwise (position platform prefixHash)).map Prod.snd).filter keep := by
    rw [List.filter_map]
    rfl
  rw [preference, cut, SortedMap.clockwise_retain, mapped, eraseDups_filter, preference]

/-- Cut down to the nodes both have, two rings are the same map. -/
theorem Covers.retain_eq_retain (leftCovers : left.Covers platform vnodesPerNode leftLive)
    (rightCovers : right.Covers platform vnodesPerNode rightLive) :
    left.ring.retain (fun nodeId => decide (nodeId ∈ rightLive)) =
      right.ring.retain fun nodeId => decide (nodeId ∈ leftLive) := by
  apply SortedMap.ext_of_mem_iff
  intro entry
  simp only [SortedMap.mem_retain, leftCovers.entriesEq, rightCovers.entriesEq, decide_eq_true_eq]
  tauto

/-- Two rings prefer the nodes they share in the same order. -/
theorem Covers.preference_filter_eq (leftCovers : left.Covers platform vnodesPerNode leftLive)
    (rightCovers : right.Covers platform vnodesPerNode rightLive) (prefixHash : PrefixHash) :
    (left.preference platform prefixHash).filter (fun nodeId => decide (nodeId ∈ rightLive)) =
      (right.preference platform prefixHash).filter fun nodeId => decide (nodeId ∈ leftLive) := by
  have same := leftCovers.retain_eq_retain rightCovers
  rw [← @preference_of_retain left { left with ring := left.ring.retain _ } _ rfl,
    ← @preference_of_retain right { right with ring := right.ring.retain _ } _ rfl]
  simp only [preference, same]

/-- Where each ring has the node the other prefers, they prefer the same one. -/
theorem Covers.preferredNode_eq_of_shared (leftCovers : left.Covers platform vnodesPerNode leftLive)
    (rightCovers : right.Covers platform vnodesPerNode rightLive) {prefixHash : PrefixHash}
    {leftNode rightNode : String}
    (leftPrefers : left.preferredNode platform prefixHash = some leftNode)
    (rightPrefers : right.preferredNode platform prefixHash = some rightNode)
    (leftShared : leftNode ∈ rightLive) (rightShared : rightNode ∈ leftLive) :
    leftNode = rightNode := by
  have shared := leftCovers.preference_filter_eq rightCovers prefixHash
  rw [← head?_preference] at leftPrefers rightPrefers
  obtain ⟨leftRest, leftList⟩ := List.head?_eq_some_iff.mp leftPrefers
  obtain ⟨rightRest, rightList⟩ := List.head?_eq_some_iff.mp rightPrefers
  rw [leftList, rightList, List.filter_cons_of_pos (by simpa using leftShared),
    List.filter_cons_of_pos (by simpa using rightShared)] at shared
  exact (List.cons.inj shared).1

end HashRing

/-! ## The rings of a cluster -/

/-- The id that a step can bring onto a ring: that of an agent that starts, or the one
the watches read from the key of a registration. -/
def ClusterAction.joining : ClusterAction → Option String
  | .etcd (.putNode info _) => some (nodeIdOf (nodeKey info.nodeId))
  | .watchBlocks agent => some agent
  | _ => none

/-- The ring of a view is that of its nodes, and only known ids are on it or on their
way to it. -/
structure View.Sound (platform : Platform) (vnodesPerNode : UInt32) (known : List String)
    (view : View) : Prop where
  covers : view.hashRing.Covers platform vnodesPerNode view.hashRing.nodes.toFinset
  nodesKnown : ∀ nodeId ∈ view.hashRing.nodes, nodeId ∈ known
  streamKnown : ∀ watch ∈ view.nodeWatch, ∀ key, .put key ∈ watch.stream → nodeIdOf key ∈ known

section View

variable {platform : Platform} {vnodesPerNode : UInt32} {known : List String} {view : View}

theorem HashRing.Covers.self {hashRing : HashRing} {live : Finset String}
    (covers : hashRing.Covers platform vnodesPerNode live) :
    hashRing.Covers platform vnodesPerNode hashRing.nodes.toFinset := by
  have same : hashRing.nodes.toFinset = live := by
    ext nodeId
    rw [List.mem_toFinset, covers.nodesEq]
  rwa [same]

theorem View.start_sound (apart : PositionsApart platform vnodesPerNode known) {agent : String}
    (agentKnown : agent ∈ known) :
    (View.start platform vnodesPerNode agent).Sound platform vnodesPerNode known := by
  have covers := (HashRing.new_covers platform vnodesPerNode).addNode apart (by simp) agentKnown
  refine ⟨covers.self, ?_, ?_⟩
  · intro nodeId member
    have isAgent := (covers.nodesEq nodeId).mp member
    obtain rfl : nodeId = agent := by simpa using isAgent
    exact agentKnown
  · intro watch isWatch
    cases isWatch

theorem View.Sound.deliver (sound : view.Sound platform vnodesPerNode known)
    (blockEvents : List BlockEvent) {nodeEvents : List NodeEvent}
    (eventsKnown : ∀ key, .put key ∈ nodeEvents → nodeIdOf key ∈ known) :
    (view.deliver blockEvents nodeEvents).Sound platform vnodesPerNode known := by
  refine ⟨sound.covers, sound.nodesKnown, ?_⟩
  intro watch isWatch key member
  obtain ⟨old, oldEq, rfl⟩ := Option.map_eq_some_iff.mp isWatch
  rcases List.mem_append.mp member with before | new
  · exact sound.streamKnown old oldEq key before
  · exact eventsKnown key new

theorem View.Sound.watchNodes (sound : view.Sound platform vnodesPerNode known)
    (revision : Nat) : (view.watchNodes revision).Sound platform vnodesPerNode known := by
  refine ⟨sound.covers, sound.nodesKnown, ?_⟩
  intro watch isWatch key member
  obtain rfl := Option.some.inj isWatch
  cases existing : view.nodeWatch with
  | none => simp [existing] at member
  | some old =>
      rw [existing] at member
      exact sound.streamKnown old existing key member

theorem View.Sound.takeBlock (sound : view.Sound platform vnodesPerNode known) :
    view.takeBlock.Sound platform vnodesPerNode known := by
  unfold View.takeBlock
  split
  · exact ⟨sound.covers, sound.nodesKnown, sound.streamKnown⟩
  · exact sound

theorem View.Sound.takeNode (sound : view.Sound platform vnodesPerNode known)
    (apart : PositionsApart platform vnodesPerNode known) :
    (view.takeNode platform).Sound platform vnodesPerNode known := by
  unfold View.takeNode
  split
  · rename_i since event rest watchEq
    have liveKnown : ∀ nodeId ∈ view.hashRing.nodes.toFinset, nodeId ∈ known := by
      intro nodeId member
      exact sound.nodesKnown nodeId (List.mem_toFinset.mp member)
    have restKnown : ∀ key, .put key ∈ rest → nodeIdOf key ∈ known := by
      intro key member
      exact sound.streamKnown _ watchEq key (List.mem_cons_of_mem _ member)
    cases event with
    | put key =>
        have keyKnown := sound.streamKnown _ watchEq key List.mem_cons_self
        have covers := sound.covers.addNode apart liveKnown keyKnown
        refine ⟨covers.self, ?_, ?_⟩
        · intro nodeId member
          have isLive := (covers.nodesEq nodeId).mp member
          rcases Finset.mem_insert.mp isLive with rfl | old
          · exact keyKnown
          · exact liveKnown nodeId old
        · intro watch isWatch
          obtain rfl := Option.some.inj isWatch
          exact restKnown
    | delete key =>
        have covers := sound.covers.removeNode (nodeIdOf key)
        refine ⟨covers.self, ?_, ?_⟩
        · intro nodeId member
          have isLive := (covers.nodesEq nodeId).mp member
          exact liveKnown nodeId (Finset.mem_of_mem_erase isLive)
        · intro watch isWatch
          obtain rfl := Option.some.inj isWatch
          exact restKnown
  · exact sound

end View

namespace Cluster

variable {platform : Platform} {vnodesPerNode : UInt32} {known : List String}

/-- Every view of the cluster is sound. -/
def RingsSound (platform : Platform) (vnodesPerNode : UInt32) (known : List String)
    (cluster : Cluster) : Prop :=
  ∀ agent view, cluster.views agent = some view → view.Sound platform vnodesPerNode known

theorem RingsSound.step {cluster : Cluster}
    (sound : cluster.RingsSound platform vnodesPerNode known)
    (apart : PositionsApart platform vnodesPerNode known) {action : ClusterAction}
    (joiningKnown : ∀ nodeId, action.joining = some nodeId → nodeId ∈ known) :
    (cluster.step platform vnodesPerNode action).RingsSound platform vnodesPerNode known := by
  refine forall_views_step sound ?_ ?_ (fun view viewSound => viewSound.watchNodes _)
    (fun view viewSound => viewSound.takeBlock) fun view viewSound => viewSound.takeNode apart
  · rintro agent rfl
    exact View.start_sound apart (joiningKnown agent rfl)
  · rintro op rfl view viewSound
    apply viewSound.deliver
    intro key member
    cases op with
    | grant => cases member
    | putNode info lease =>
        by_cases accepted : cluster.etcd.Accepts lease
        · rw [Etcd.nodeEvents, if_pos accepted] at member
          obtain rfl : key = nodeKey info.nodeId := by simpa using member
          exact joiningKnown _ rfl
        · rw [Etcd.nodeEvents, if_neg accepted] at member
          cases member
    | put prefixHash value lease => cases member
    | finish lease => simp [Etcd.nodeEvents] at member

theorem run_ringsSound (apart : PositionsApart platform vnodesPerNode known)
    {actions : List ClusterAction}
    (joiningKnown : ∀ action ∈ actions, ∀ nodeId, action.joining = some nodeId → nodeId ∈ known) :
    (run (step platform vnodesPerNode) new actions).RingsSound platform vnodesPerNode known := by
  apply @run_invariant_of_mem _ _ (step platform vnodesPerNode)
    (RingsSound platform vnodesPerNode known) actions
  · intro cluster action member sound
    exact sound.step apart (joiningKnown action member)
  · intro agent view viewEq
    cases viewEq

/-- The rings of two agents may never have the same nodes, yet at every moment of every
run they agree on the nodes both have: cut down to these, `preferred_nodes` lists are
equal, and the agents prefer the same node for a prefix hash unless one of them prefers
a node the other does not have; as long as no two virtual node keys of the nodes that
join in the run share a position. -/
theorem shared_nodes_keep_order (platform : Platform) (vnodesPerNode : UInt32)
    (actions : List ClusterAction)
    (apart : PositionsApart platform vnodesPerNode (actions.filterMap ClusterAction.joining))
    {first second : String} {firstView secondView : View}
    (firstEq : (run (step platform vnodesPerNode) new actions).views first = some firstView)
    (secondEq : (run (step platform vnodesPerNode) new actions).views second = some secondView)
    (prefixHash : PrefixHash) :
    let left := firstView.hashRing
    let right := secondView.hashRing
    (left.preferredNodes platform prefixHash left.ring.entries.length).filter
          (fun nodeId => decide (nodeId ∈ right.nodes)) =
        (right.preferredNodes platform prefixHash right.ring.entries.length).filter
          (fun nodeId => decide (nodeId ∈ left.nodes)) ∧
      ∀ leftNode rightNode, left.preferredNode platform prefixHash = some leftNode →
        right.preferredNode platform prefixHash = some rightNode →
          leftNode = rightNode ∨ leftNode ∉ right.nodes ∨ rightNode ∉ left.nodes := by
  intro left right
  have sound := @run_ringsSound platform vnodesPerNode _ apart actions
    fun action member nodeId joins => List.mem_filterMap.mpr ⟨action, member, joins⟩
  have leftCovers := (sound first firstView firstEq).covers
  have rightCovers := (sound second secondView secondEq).covers
  constructor
  · rw [HashRing.preferredNodes_length_entries, HashRing.preferredNodes_length_entries]
    simpa only [List.mem_toFinset] using leftCovers.preference_filter_eq rightCovers prefixHash
  · intro leftNode rightNode leftPrefers rightPrefers
    by_cases leftShared : leftNode ∈ right.nodes
    · by_cases rightShared : rightNode ∈ left.nodes
      · exact Or.inl (leftCovers.preferredNode_eq_of_shared rightCovers leftPrefers rightPrefers
          (List.mem_toFinset.mpr leftShared) (List.mem_toFinset.mpr rightShared))
      · exact Or.inr (Or.inr rightShared)
    · exact Or.inr (Or.inl leftShared)

/-- Two agents of which the second never learns of the first. -/
theorem shared_nodes_keep_order_of_late_agent :
    let actions := register "a" 0 ++ [.watchBlocks "a", .watchNodes "a"] ++ register "b" 1 ++
      [.watchBlocks "b", .watchNodes "b", .takeNode "a"] ++ register "c" 2 ++
      [.takeNode "a", .takeNode "b"]
    let final := run (step Platform.release 2) new actions
    ∃ firstView secondView, final.views "a" = some firstView ∧ final.views "b" = some secondView ∧
      firstView.hashRing.nodes = ["a", "b", "c"] ∧ secondView.hashRing.nodes = ["b", "c"] ∧
      ∀ prefixHash leftNode rightNode,
        firstView.hashRing.preferredNode Platform.release prefixHash = some leftNode →
        secondView.hashRing.preferredNode Platform.release prefixHash = some rightNode →
          leftNode = rightNode ∨ leftNode ∉ secondView.hashRing.nodes ∨
            rightNode ∉ firstView.hashRing.nodes := by
  intro actions final
  have apart : PositionsApart Platform.release 2 (actions.filterMap ClusterAction.joining) := by
    decide +kernel
  have firstNodes : (final.views "a").map (fun view => view.hashRing.nodes) =
      some ["a", "b", "c"] := by
    decide +kernel
  have secondNodes : (final.views "b").map (fun view => view.hashRing.nodes) =
      some ["b", "c"] := by
    decide +kernel
  obtain ⟨firstView, firstEq, firstIs⟩ := Option.map_eq_some_iff.mp firstNodes
  obtain ⟨secondView, secondEq, secondIs⟩ := Option.map_eq_some_iff.mp secondNodes
  refine ⟨firstView, secondView, firstEq, secondEq, firstIs, secondIs, ?_⟩
  intro prefixHash
  exact (shared_nodes_keep_order Platform.release 2 actions apart firstEq secondEq prefixHash).2

end Cluster

end CmxRdma.Agent
