import CmxRdma.Agent.Config
import CmxRdma.Agent.Metadata

/-!
Contract: the keys an agent writes to etcd against what the watches read from them.

Owns: that every block key gives its hash back, which node ids of an accepted
configuration come back from their key, and what a departure then removes.

Does not own: the watches' streams; see `Cluster`.
-/

namespace CmxRdma.Agent

open CmxRdma.Lib

/-! ## Departures -/

/-- The event of a node's departure takes exactly the node's records out of the remote
index, and exactly its virtual nodes and its name out of the ring. -/
structure DepartsExactly (platform : Platform) (nodeId : String) : Prop where
  records : ∀ remote prefixHash info,
    info ∈ ((watchNodesIndex remote (.delete (nodeKey nodeId))).lookup prefixHash).getD [] ↔
      info ∈ (remote.lookup prefixHash).getD [] ∧ info.nodeId ≠ nodeId
  vnodes : ∀ hashRing entry,
    entry ∈ (watchNodesRing platform hashRing (.delete (nodeKey nodeId))).ring ↔
      entry ∈ hashRing.ring ∧ entry.2 ≠ nodeId
  nodes : ∀ hashRing other,
    other ∈ (watchNodesRing platform hashRing (.delete (nodeKey nodeId))).nodes ↔
      other ∈ hashRing.nodes ∧ other ≠ nodeId

theorem departsExactly_of_plain (platform : Platform) {nodeId : String} (plain : PlainId nodeId) :
    DepartsExactly platform nodeId where
  records := by
    intro remote prefixHash info
    rw [watchNodesIndex, nodeIdOf_nodeKey plain]
    exact remote.mem_lookup_removeNode nodeId prefixHash info
  vnodes := by
    intro hashRing entry
    rw [watchNodesRing, nodeIdOf_nodeKey plain]
    simp [HashRing.removeNode]
  nodes := by
    intro hashRing other
    rw [watchNodesRing, nodeIdOf_nodeKey plain]
    simp [HashRing.removeNode]

/-! ## Round trips -/

/-- A configuration that `validate` accepts. -/
structure AcceptedConfig (std : StdText) where
  config : AgentConfig
  accepted : config.validate std = .ok ()

/-- The id an agent registers under. -/
def AcceptedConfig.nodeId {std : StdText} (accepted : AcceptedConfig std)
    (environment : Option String) (hostname : String) : String :=
  (accepted.config.resolveNodeId environment hostname).agent.nodeId

/-- Whatever an accepted configuration and the environment make the node's id, every
block key gives its hash back; the id comes back from its key and the departure removes
exactly the node's own if and only if the id does not start with the directory of the
node keys. -/
theorem keys_round_trip_iff (platform : Platform) {std : StdText} (config : AcceptedConfig std)
    (environment : Option String) (hostname : String) :
    let nodeId := config.nodeId environment hostname
    (∀ prefixHash, blockHashOf (blockKey prefixHash) = some prefixHash) ∧
      (nodeIdOf (nodeKey nodeId) = nodeId ∧ DepartsExactly platform nodeId ↔ PlainId nodeId) := by
  intro nodeId
  refine ⟨blockHashOf_blockKey, ?_⟩
  constructor
  · rintro ⟨readBack, -⟩
    exact (nodeIdOf_nodeKey_iff nodeId).mp readBack
  · intro plain
    exact ⟨nodeIdOf_nodeKey plain, departsExactly_of_plain platform plain⟩

/-- The defaults with an id that starts with the directory of the node keys. -/
def directoryId : AgentConfig :=
  { AgentConfig.defaultConfig with agent := ⟨"/cmx/nodes/a", "0.0.0.0:50051"⟩ }

/-- The configuration is accepted, the watch reads the id of another node from its key,
and the departure removes that node's record and leaves the departed one's. -/
theorem directory_id_read_as_other :
    let nodeId := (directoryId.resolveNodeId none "host").agent.nodeId
    let departed : RemoteBlockInfo := ⟨nodeId, "a:1", 0, 16, 1⟩
    let other : RemoteBlockInfo := ⟨"a", "a:2", 0, 16, 1⟩
    let remote := (RemoteIndex.new.insert (.ofByte 7) departed).insert (.ofByte 7) other
    (∀ std : StdText, std.isSocketAddr "0.0.0.0:50051" → directoryId.validate std = .ok ()) ∧
      nodeIdOf (nodeKey nodeId) = "a" ∧ nodeId = "/cmx/nodes/a" ∧
      (watchNodesIndex remote (.delete (nodeKey nodeId))).lookup (.ofByte 7) = some [departed] := by
  intro nodeId departed other remote
  refine ⟨?_, by decide +kernel, by decide +kernel, by decide +kernel⟩
  intro std parses
  rw [AgentConfig.validate_eq_ok_iff]
  exact ⟨by decide, by decide, by decide, by decide, parses⟩

end CmxRdma.Agent
