import CmxRdma.Platform
import CmxRdma.Lib.FiniteMap

/-!
Contract: `cmx-agent/src/remote_index.rs`, the blocks other nodes announced.

Owns: the remote block record and the map the Lookup handler falls back to,
with its `lookup`, `insert`, `remove` and `remove_node`, and what each does to
the entry of one node under one key.

Does not own: the etcd watch that feeds it.
-/

namespace CmxRdma.Agent

open CmxRdma.Lib.FiniteMap

structure RemoteBlockInfo where
  nodeId : String
  nodeAddr : String
  offset : UInt64
  size : UInt64
  generation : UInt64
deriving DecidableEq, Repr

structure RemoteIndex where
  map : AList (fun _ : PrefixHash => List RemoteBlockInfo)

namespace RemoteIndex

def new : RemoteIndex := ⟨∅⟩

def lookup (remote : RemoteIndex) (prefixHash : PrefixHash) : Option (List RemoteBlockInfo) :=
  remote.map.lookup prefixHash

/-- Replace the first entry of the same node, or append. -/
def upsert (info : RemoteBlockInfo) : List RemoteBlockInfo → List RemoteBlockInfo
  | [] => [info]
  | existing :: rest =>
      if existing.nodeId = info.nodeId then info :: rest else existing :: upsert info rest

def insert (remote : RemoteIndex) (prefixHash : PrefixHash) (info : RemoteBlockInfo) :
    RemoteIndex :=
  match remote.map.lookup prefixHash with
  | some entries => ⟨remote.map.insert prefixHash (upsert info entries)⟩
  | none => ⟨remote.map.insert prefixHash [info]⟩

def remove (remote : RemoteIndex) (prefixHash : PrefixHash) : RemoteIndex :=
  ⟨remote.map.erase prefixHash⟩

/-- The closure of `remove_node`: one key's list without the node's entries. -/
def retainOthers (nodeId : String) (entry : Sigma fun _ : PrefixHash => List RemoteBlockInfo) :
    Sigma fun _ : PrefixHash => List RemoteBlockInfo :=
  ⟨entry.1, entry.2.filter fun info => info.nodeId ≠ nodeId⟩

/-- `remove_node`: drop the node's entries, then the keys left without any. -/
def removeNode (remote : RemoteIndex) (nodeId : String) : RemoteIndex where
  map := {
    entries := (remote.map.entries.map (retainOthers nodeId)).filter fun entry =>
      !entry.2.isEmpty
    nodupKeys := by
      have sameKeys : (remote.map.entries.map (retainOthers nodeId)).keys =
          remote.map.entries.keys := by
        simp [List.keys, retainOthers, Function.comp_def]
      have nodup : (remote.map.entries.map (retainOthers nodeId)).NodupKeys := by
        rw [List.NodupKeys, sameKeys]
        exact remote.map.nodupKeys
      exact nodup.sublist List.filter_sublist }

/-! ## The entry of one node -/

/-- What a key's list says about a node. -/
def ofNode (nodeId : String) (entries : List RemoteBlockInfo) : Option RemoteBlockInfo :=
  entries.find? fun info => info.nodeId = nodeId

/-- What the index says about a node under a key. -/
def entryOf (remote : RemoteIndex) (prefixHash : PrefixHash) (nodeId : String) :
    Option RemoteBlockInfo :=
  (remote.lookup prefixHash).bind (ofNode nodeId)

@[simp] theorem ofNode_nil (nodeId : String) : ofNode nodeId [] = none := rfl

@[simp] theorem ofNode_cons (nodeId : String) (info : RemoteBlockInfo)
    (rest : List RemoteBlockInfo) :
    ofNode nodeId (info :: rest) =
      if info.nodeId = nodeId then some info else ofNode nodeId rest := by
  by_cases isNode : info.nodeId = nodeId <;> simp [ofNode, isNode]

/-- A node is listed under a key exactly when the index has an entry of it. -/
theorem isSome_entryOf_iff {remote : RemoteIndex} {prefixHash : PrefixHash} {nodeId : String} :
    (remote.entryOf prefixHash nodeId).isSome ↔
      ∃ entries, remote.lookup prefixHash = some entries ∧
        ∃ info ∈ entries, info.nodeId = nodeId := by
  rw [entryOf]
  cases remote.lookup prefixHash with
  | none => simp
  | some entries => simp [ofNode, List.find?_isSome]

/-- The entry of a node is one of the key's list and names the node. -/
theorem mem_of_entryOf {remote : RemoteIndex} {prefixHash : PrefixHash} {nodeId : String}
    {info : RemoteBlockInfo} (found : remote.entryOf prefixHash nodeId = some info) :
    ∃ entries, remote.lookup prefixHash = some entries ∧ info ∈ entries := by
  obtain ⟨entries, looked, isEntry⟩ := Option.bind_eq_some_iff.mp found
  exact ⟨entries, looked, List.mem_of_find?_eq_some isEntry⟩

theorem nodeId_of_entryOf {remote : RemoteIndex} {prefixHash : PrefixHash} {nodeId : String}
    {info : RemoteBlockInfo} (found : remote.entryOf prefixHash nodeId = some info) :
    info.nodeId = nodeId := by
  obtain ⟨entries, -, isEntry⟩ := Option.bind_eq_some_iff.mp found
  have accepted := List.find?_some isEntry
  exact of_decide_eq_true accepted

theorem ofNode_upsert (info : RemoteBlockInfo) (nodeId : String)
    (entries : List RemoteBlockInfo) :
    ofNode nodeId (upsert info entries) =
      if info.nodeId = nodeId then some info else ofNode nodeId entries := by
  induction entries with
  | nil => rw [upsert, ofNode_cons]
  | cons existing rest inductionHypothesis =>
      rw [upsert]
      by_cases sameNode : existing.nodeId = info.nodeId
      · rw [if_pos sameNode, ofNode_cons, ofNode_cons, sameNode]
        split_ifs <;> rfl
      · rw [if_neg sameNode, ofNode_cons, ofNode_cons, inductionHypothesis]
        split_ifs with isNode isInfo isInfo
        · exact absurd (isNode.trans isInfo.symm) sameNode
        all_goals rfl

theorem lookup_insert_self (remote : RemoteIndex) (prefixHash : PrefixHash)
    (info : RemoteBlockInfo) :
    (remote.insert prefixHash info).lookup prefixHash =
      some (upsert info ((remote.lookup prefixHash).getD [])) := by
  simp only [lookup, insert]
  cases remote.map.lookup prefixHash <;> exact AList.lookup_insert _

theorem lookup_insert_ne {inserted prefixHash : PrefixHash} (different : inserted ≠ prefixHash)
    (remote : RemoteIndex) (info : RemoteBlockInfo) :
    (remote.insert inserted info).lookup prefixHash = remote.lookup prefixHash := by
  simp only [lookup, insert]
  cases remote.map.lookup inserted <;> exact AList.lookup_insert_ne (Ne.symm different)

theorem lookup_remove (remote : RemoteIndex) (removed prefixHash : PrefixHash) :
    (remote.remove removed).lookup prefixHash =
      if removed = prefixHash then none else remote.lookup prefixHash := by
  by_cases same : removed = prefixHash
  · subst same
    simp [lookup, remove]
  · rw [if_neg same]
    exact AList.lookup_erase_ne (Ne.symm same)

theorem entryOf_insert (remote : RemoteIndex) (inserted prefixHash : PrefixHash)
    (info : RemoteBlockInfo) (nodeId : String) :
    (remote.insert inserted info).entryOf prefixHash nodeId =
      if inserted = prefixHash ∧ info.nodeId = nodeId then some info
      else remote.entryOf prefixHash nodeId := by
  by_cases same : inserted = prefixHash
  · subst same
    rw [entryOf, lookup_insert_self, Option.bind_some, ofNode_upsert, entryOf]
    cases remote.lookup inserted <;> simp
  · rw [entryOf, lookup_insert_ne same, if_neg (fun both => same both.1), entryOf]

theorem entryOf_remove (remote : RemoteIndex) (removed prefixHash : PrefixHash)
    (nodeId : String) :
    (remote.remove removed).entryOf prefixHash nodeId =
      if removed = prefixHash then none else remote.entryOf prefixHash nodeId := by
  rw [entryOf, lookup_remove, entryOf]
  split_ifs <;> rfl

/-- The list a key keeps when a node is removed, if any entry is left. -/
def othersOf (nodeId : String) (entries : List RemoteBlockInfo) : Option (List RemoteBlockInfo) :=
  if (entries.filter fun info => info.nodeId ≠ nodeId).isEmpty then none
  else some (entries.filter fun info => info.nodeId ≠ nodeId)

/-- `remove_node` as one pass over the lists. -/
theorem map_removeNode (remote : RemoteIndex) (nodeId : String) :
    (remote.removeNode nodeId).map = filterMapValues (othersOf nodeId) remote.map := by
  apply AList.ext
  show (remote.map.entries.map (retainOthers nodeId)).filter (fun entry => !entry.2.isEmpty) =
    remote.map.entries.filterMap (selectEntry (othersOf nodeId))
  rw [← List.filterMap_eq_map, List.filter_filterMap]
  apply List.filterMap_congr
  intro entry _
  by_cases nobody : (entry.2.filter fun info => info.nodeId ≠ nodeId).isEmpty
  · rw [selectEntry_of_none (by rw [othersOf, if_pos nobody])]
    simp only [Function.comp_apply, retainOthers, Option.filter_some, nobody]
    rfl
  · rw [selectEntry_of_some (by rw [othersOf, if_neg nobody])]
    simp only [Function.comp_apply, retainOthers, Option.filter_some, nobody]
    rfl

theorem lookup_removeNode (remote : RemoteIndex) (removed : String) (prefixHash : PrefixHash) :
    (remote.removeNode removed).lookup prefixHash =
      (remote.lookup prefixHash).bind (othersOf removed) := by
  rw [lookup, map_removeNode, lookup_filterMapValues]
  rfl

theorem mem_lookup_removeNode (remote : RemoteIndex) (removed : String)
    (prefixHash : PrefixHash) (info : RemoteBlockInfo) :
    info ∈ ((remote.removeNode removed).lookup prefixHash).getD [] ↔
      info ∈ (remote.lookup prefixHash).getD [] ∧ info.nodeId ≠ removed := by
  rw [lookup_removeNode]
  cases remote.lookup prefixHash with
  | none => simp
  | some entries =>
      rw [Option.bind_some, othersOf, Option.getD_some]
      split_ifs with nobody
      · have noneLeft : info ∉ entries.filter fun other => other.nodeId ≠ removed := by
          rw [List.isEmpty_iff.mp nobody]
          exact List.not_mem_nil
        rw [List.mem_filter] at noneLeft
        simpa using noneLeft
      · simp

theorem entryOf_removeNode (remote : RemoteIndex) (removed nodeId : String)
    (prefixHash : PrefixHash) :
    (remote.removeNode removed).entryOf prefixHash nodeId =
      if removed = nodeId then none else remote.entryOf prefixHash nodeId := by
  rw [entryOf, lookup_removeNode, entryOf]
  cases remote.lookup prefixHash with
  | none => simp
  | some entries =>
      rw [Option.bind_some, Option.bind_some, othersOf]
      have filtered : ofNode nodeId (entries.filter fun info => info.nodeId ≠ removed) =
          if removed = nodeId then none else ofNode nodeId entries := by
        rw [ofNode, List.find?_filter]
        split_ifs with same
        · simp [same]
        · rw [ofNode]
          congr 1
          funext info
          by_cases isNode : info.nodeId = nodeId
          · simp [isNode, Ne.symm same]
          · simp [isNode]
      rw [← filtered]
      split_ifs with nobody
      · rw [List.isEmpty_iff.mp nobody]
        rfl
      · rfl

/-! ## The node a Lookup is sent to -/

/-- The node of the first entry under a key. -/
def firstNode (remote : RemoteIndex) (prefixHash : PrefixHash) : Option String :=
  ((remote.lookup prefixHash).bind List.head?).map RemoteBlockInfo.nodeId

/-- The node of the first entry under a key that is not of the given node. -/
def firstOther (remote : RemoteIndex) (nodeId : String) (prefixHash : PrefixHash) :
    Option String :=
  ((remote.lookup prefixHash).bind (List.find? fun info => info.nodeId ≠ nodeId)).map
    RemoteBlockInfo.nodeId

/-- A put leaves the first node first, or makes its own node first. -/
theorem firstNode_insert (remote : RemoteIndex) (inserted prefixHash : PrefixHash)
    (info : RemoteBlockInfo) :
    (remote.insert inserted info).firstNode prefixHash =
      if inserted = prefixHash then some ((remote.firstNode prefixHash).getD info.nodeId)
      else remote.firstNode prefixHash := by
  by_cases same : inserted = prefixHash
  · subst same
    rw [firstNode, lookup_insert_self, if_pos rfl, firstNode]
    rcases remote.lookup inserted with _ | _ | ⟨existing, rest⟩
    · rfl
    · rfl
    · simp only [Option.getD_some, upsert]
      split_ifs with sameNode
      · simp [sameNode]
      · simp
  · rw [firstNode, lookup_insert_ne same, if_neg same, firstNode]

theorem firstNode_remove (remote : RemoteIndex) (removed prefixHash : PrefixHash) :
    (remote.remove removed).firstNode prefixHash =
      if removed = prefixHash then none else remote.firstNode prefixHash := by
  rw [firstNode, lookup_remove, firstNode]
  split_ifs <;> rfl

/-- Without a node, the first entry of another one is first. -/
theorem firstNode_removeNode (remote : RemoteIndex) (removed : String)
    (prefixHash : PrefixHash) :
    (remote.removeNode removed).firstNode prefixHash = remote.firstOther removed prefixHash := by
  rw [firstNode, lookup_removeNode, firstOther]
  cases remote.lookup prefixHash with
  | none => rfl
  | some entries =>
      rw [Option.bind_some, Option.bind_some, othersOf, ← List.head?_filter]
      split_ifs with nobody
      · rw [List.isEmpty_iff.mp nobody]
        rfl
      · rfl

@[simp] theorem firstNode_new (prefixHash : PrefixHash) : new.firstNode prefixHash = none := rfl

/-! ## Keys only one node is listed for -/

/-- Every entry under a key is of the node. -/
def OnlyOf (remote : RemoteIndex) (prefixHash : PrefixHash) (nodeId : String) : Prop :=
  ∀ entries, remote.lookup prefixHash = some entries → ∀ info ∈ entries, info.nodeId = nodeId

theorem mem_of_mem_upsert {info other : RemoteBlockInfo} {entries : List RemoteBlockInfo}
    (member : other ∈ upsert info entries) : other = info ∨ other ∈ entries := by
  induction entries with
  | nil => exact Or.inl (List.mem_singleton.mp member)
  | cons existing rest inductionHypothesis =>
      rw [upsert] at member
      split at member
      · exact (List.mem_cons.mp member).imp_right (List.mem_cons_of_mem _)
      · rcases List.mem_cons.mp member with rfl | later
        · exact Or.inr List.mem_cons_self
        · exact (inductionHypothesis later).imp_right (List.mem_cons_of_mem _)

section OnlyOf

variable {remote : RemoteIndex} {prefixHash : PrefixHash} {nodeId : String}

theorem onlyOf_new (prefixHash : PrefixHash) (nodeId : String) : new.OnlyOf prefixHash nodeId := by
  intro entries looked
  cases looked

theorem OnlyOf.insert (only : remote.OnlyOf prefixHash nodeId) {inserted : PrefixHash}
    {info : RemoteBlockInfo} (own : inserted = prefixHash → info.nodeId = nodeId) :
    (remote.insert inserted info).OnlyOf prefixHash nodeId := by
  intro entries looked other member
  by_cases same : inserted = prefixHash
  · subst same
    rw [lookup_insert_self, Option.some.injEq] at looked
    rw [← looked] at member
    rcases mem_of_mem_upsert member with rfl | old
    · exact own rfl
    · cases before : remote.lookup inserted with
      | none => simp [before] at old
      | some listed => exact only listed before other (by simpa [before] using old)
  · rw [lookup_insert_ne same] at looked
    exact only entries looked other member

theorem OnlyOf.remove (only : remote.OnlyOf prefixHash nodeId) (removed : PrefixHash) :
    (remote.remove removed).OnlyOf prefixHash nodeId := by
  intro entries looked
  rw [lookup_remove] at looked
  split_ifs at looked
  exact only entries looked

theorem OnlyOf.removeNode (only : remote.OnlyOf prefixHash nodeId) (removed : String) :
    (remote.removeNode removed).OnlyOf prefixHash nodeId := by
  intro entries looked info member
  rw [lookup_removeNode] at looked
  obtain ⟨listed, before, kept⟩ := Option.bind_eq_some_iff.mp looked
  rw [othersOf] at kept
  split_ifs at kept
  obtain rfl := Option.some.inj kept
  exact only listed before info (List.mem_of_mem_filter member)

/-- Such a key has no first node or the node itself. -/
theorem OnlyOf.firstNode (only : remote.OnlyOf prefixHash nodeId) {info : RemoteBlockInfo}
    (isFirst : (remote.lookup prefixHash).bind List.head? = some info) : info.nodeId = nodeId := by
  obtain ⟨entries, looked, head⟩ := Option.bind_eq_some_iff.mp isFirst
  exact only entries looked info (List.mem_of_head? head)

end OnlyOf

end RemoteIndex

end CmxRdma.Agent
