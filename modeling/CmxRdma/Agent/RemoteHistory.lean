import CmxRdma.Agent.RemoteIndex
import CmxRdma.Lib.History

/-!
Contract: call sequences on `RemoteIndex` against their own history.

Owns: the index's calls as steps, what the calls so far say about a node under
a key (it survives, its latest record, when it arrived), and that `lookup`
answers exactly that.

Does not own: what one call does to one entry; see `RemoteIndex`.
-/

namespace CmxRdma.Agent

open CmxRdma.Lib.Transition CmxRdma.Lib.History

/-- A call that changes `RemoteIndex`. -/
inductive RemoteCall where
  | insert (prefixHash : PrefixHash) (info : RemoteBlockInfo)
  | remove (prefixHash : PrefixHash)
  | removeNode (nodeId : String)
deriving DecidableEq

namespace RemoteCall

/-- The call inserts a record of the node for the key. -/
def Inserts (prefixHash : PrefixHash) (nodeId : String) (call : RemoteCall) : Prop :=
  ∃ info, call = .insert prefixHash info ∧ info.nodeId = nodeId

/-- The call drops every record of the node for the key. -/
def Drops (prefixHash : PrefixHash) (nodeId : String) (call : RemoteCall) : Prop :=
  call = .remove prefixHash ∨ call = .removeNode nodeId

theorem inserts_insert (prefixHash : PrefixHash) (info : RemoteBlockInfo) :
    Inserts prefixHash info.nodeId (.insert prefixHash info) :=
  ⟨info, rfl, rfl⟩

theorem Inserts.not_drops {prefixHash : PrefixHash} {nodeId : String} {call : RemoteCall}
    (inserts : call.Inserts prefixHash nodeId) : ¬ call.Drops prefixHash nodeId := by
  obtain ⟨info, rfl, -⟩ := inserts
  simp [Drops]

/-- The node was inserted for the key after the key's last `remove` and the node's
last `remove_node`. -/
def Survives (calls : List RemoteCall) (prefixHash : PrefixHash) (nodeId : String) : Prop :=
  Since (fun _ => Inserts prefixHash nodeId) (Drops prefixHash nodeId) calls

/-- The record is that of its node's latest insert for the key. -/
def Latest (calls : List RemoteCall) (prefixHash : PrefixHash) (info : RemoteBlockInfo) : Prop :=
  Since (fun _ call => call = .insert prefixHash info) (Inserts prefixHash info.nodeId) calls

/-- The call at `position` is the node's first insert for the key since the node
was last absent there. -/
def ArrivedAt (calls : List RemoteCall) (prefixHash : PrefixHash) (nodeId : String)
    (position : Nat) : Prop :=
  Since
    (fun before call =>
      before.length = position ∧ call.Inserts prefixHash nodeId ∧
        ¬ Survives before prefixHash nodeId)
    (Drops prefixHash nodeId) calls

/-- One node arrived under the key before the other. -/
def ArrivedBefore (calls : List RemoteCall) (prefixHash : PrefixHash)
    (earlier later : String) : Prop :=
  ∃ first second, ArrivedAt calls prefixHash earlier first ∧
    ArrivedAt calls prefixHash later second ∧ first < second

variable {calls : List RemoteCall} {prefixHash : PrefixHash} {nodeId : String}

/-- A node survives with its latest record exactly when that record's insert has
seen neither a drop nor another insert of the node. -/
theorem survives_and_latest_iff (calls : List RemoteCall) (prefixHash : PrefixHash)
    (info : RemoteBlockInfo) :
    Survives calls prefixHash info.nodeId ∧ Latest calls prefixHash info ↔
      Since (fun _ call => call = .insert prefixHash info)
        (fun call => call.Inserts prefixHash info.nodeId ∨ call.Drops prefixHash info.nodeId)
        calls := by
  simp only [Survives, Latest]
  induction calls using List.reverseRecOn with
  | nil => simp
  | append_singleton calls call inductionHypothesis =>
      rw [since_concat, since_concat, since_concat, ← inductionHypothesis]
      have isInsert : call = .insert prefixHash info → call.Inserts prefixHash info.nodeId := by
        rintro rfl
        exact inserts_insert prefixHash info
      tauto

/-- A surviving node has a latest record. -/
theorem Survives.exists_latest (survives : Survives calls prefixHash nodeId) :
    ∃ info, info.nodeId = nodeId ∧ Latest calls prefixHash info := by
  induction calls using List.reverseRecOn with
  | nil => exact absurd survives not_since_nil
  | append_singleton calls call inductionHypothesis =>
      by_cases inserts : call.Inserts prefixHash nodeId
      · obtain ⟨info, isInsert, isNode⟩ := inserts
        exact ⟨info, isNode, (since_concat calls call).mpr (Or.inl isInsert)⟩
      · have held := ((since_concat calls call).mp survives).resolve_left inserts
        obtain ⟨info, rfl, latest⟩ := inductionHypothesis held.1
        exact ⟨info, rfl, (since_concat calls call).mpr (Or.inr ⟨latest, inserts⟩)⟩

/-! ## Arrival -/

theorem ArrivedAt.survives {position : Nat} (arrived : ArrivedAt calls prefixHash nodeId position) :
    Survives calls prefixHash nodeId :=
  arrived.imp (fun _ _ begins => begins.2.1) (fun _ drops => drops)

theorem ArrivedAt.lt_length {position : Nat}
    (arrived : ArrivedAt calls prefixHash nodeId position) : position < calls.length := by
  obtain ⟨before, call, after, rfl, ⟨rfl, -⟩, -⟩ := arrived
  simp

/-- A call that does not drop the node leaves its arrival where it was. -/
theorem ArrivedAt.concat {position : Nat} (arrived : ArrivedAt calls prefixHash nodeId position)
    {call : RemoteCall} (kept : ¬ call.Drops prefixHash nodeId) :
    ArrivedAt (calls ++ [call]) prefixHash nodeId position :=
  (since_concat calls call).mpr (Or.inr ⟨arrived, kept⟩)

theorem ArrivedBefore.concat {earlier later : String}
    (arrived : ArrivedBefore calls prefixHash earlier later) {call : RemoteCall}
    (keptEarlier : ¬ call.Drops prefixHash earlier) (keptLater : ¬ call.Drops prefixHash later) :
    ArrivedBefore (calls ++ [call]) prefixHash earlier later := by
  obtain ⟨first, second, arrivedFirst, arrivedSecond, before⟩ := arrived
  exact ⟨first, second, arrivedFirst.concat keptEarlier, arrivedSecond.concat keptLater, before⟩

/-- A surviving node arrived at exactly one call. -/
theorem Survives.existsUnique_arrivedAt (survives : Survives calls prefixHash nodeId) :
    ∃! position, ArrivedAt calls prefixHash nodeId position := by
  induction calls using List.reverseRecOn with
  | nil => exact absurd survives not_since_nil
  | append_singleton calls call inductionHypothesis =>
      have arrivedIff : ∀ position, ArrivedAt (calls ++ [call]) prefixHash nodeId position ↔
          (calls.length = position ∧ call.Inserts prefixHash nodeId ∧
            ¬ Survives calls prefixHash nodeId) ∨
          ArrivedAt calls prefixHash nodeId position ∧ ¬ call.Drops prefixHash nodeId :=
        fun position => since_concat calls call
      have cause := (since_concat calls call).mp survives
      by_cases held : Survives calls prefixHash nodeId
      · have kept : ¬ call.Drops prefixHash nodeId :=
          cause.elim Inserts.not_drops And.right
        obtain ⟨position, arrived, unique⟩ := inductionHypothesis held
        refine ⟨position, arrived.concat kept, ?_⟩
        intro other arrivedOther
        rcases (arrivedIff other).mp arrivedOther with ⟨-, -, absent⟩ | ⟨earlier, -⟩
        · exact absurd held absent
        · exact unique other earlier
      · have inserts : call.Inserts prefixHash nodeId :=
          cause.resolve_right fun both => held both.1
        refine ⟨calls.length, (arrivedIff calls.length).mpr (Or.inl ⟨rfl, inserts, held⟩), ?_⟩
        intro other arrivedOther
        rcases (arrivedIff other).mp arrivedOther with ⟨here, -⟩ | ⟨earlier, -⟩
        · exact here.symm
        · exact absurd earlier.survives held

end RemoteCall

namespace RemoteIndex

open RemoteCall

def step (remote : RemoteIndex) : RemoteCall → RemoteIndex
  | .insert prefixHash info => remote.insert prefixHash info
  | .remove prefixHash => remote.remove prefixHash
  | .removeNode nodeId => remote.removeNode nodeId

/-! ## Records -/

/-- A call sets the record of a node under a key, drops it or leaves it. -/
theorem entryOf_step (remote : RemoteIndex) (call : RemoteCall) (prefixHash : PrefixHash)
    {nodeId : String} {info : RemoteBlockInfo} (isNode : info.nodeId = nodeId) :
    (remote.step call).entryOf prefixHash nodeId = some info ↔
      call = .insert prefixHash info ∨
        remote.entryOf prefixHash nodeId = some info ∧
          ¬ (call.Inserts prefixHash nodeId ∨ call.Drops prefixHash nodeId) := by
  cases call with
  | insert inserted record =>
      rw [step, entryOf_insert]
      by_cases same : inserted = prefixHash ∧ record.nodeId = nodeId
      · obtain ⟨rfl, rfl⟩ := same
        simp [inserts_insert]
      · have notInserts : ¬ Inserts prefixHash nodeId (.insert inserted record) := by
          rintro ⟨other, sameCall, otherNode⟩
          cases sameCall
          exact same ⟨rfl, otherNode⟩
        rw [if_neg same]
        simp only [notInserts, Drops]
        grind
  | remove removed =>
      rw [step, entryOf_remove]
      by_cases same : removed = prefixHash <;> simp [same, Inserts, Drops]
  | removeNode removed =>
      rw [step, entryOf_removeNode]
      by_cases same : removed = nodeId <;> simp [same, Inserts, Drops]

@[simp] theorem entryOf_new (prefixHash : PrefixHash) (nodeId : String) :
    new.entryOf prefixHash nodeId = none := rfl

/-- The record of a node under a key is that of its latest insert, if it survives. -/
theorem entryOf_run (calls : List RemoteCall) (prefixHash : PrefixHash) (info : RemoteBlockInfo) :
    (run step new calls).entryOf prefixHash info.nodeId = some info ↔
      Survives calls prefixHash info.nodeId ∧ Latest calls prefixHash info := by
  rw [survives_and_latest_iff]
  refine @run_iff_since _ _ step
    (fun remote => remote.entryOf prefixHash info.nodeId = some info) _ _ new (by simp) ?_ calls
  intro remote call
  exact entryOf_step remote call prefixHash rfl

theorem isSome_entryOf_run (calls : List RemoteCall) (prefixHash : PrefixHash) (nodeId : String) :
    ((run step new calls).entryOf prefixHash nodeId).isSome ↔
      Survives calls prefixHash nodeId := by
  constructor
  · intro listed
    obtain ⟨info, found⟩ := Option.isSome_iff_exists.mp listed
    obtain rfl := nodeId_of_entryOf found
    exact ((entryOf_run calls prefixHash info).mp found).1
  · intro survives
    obtain ⟨info, rfl, latest⟩ := survives.exists_latest
    rw [(entryOf_run calls prefixHash info).mpr ⟨survives, latest⟩]
    rfl

/-! ## Order -/

/-- The nodes listed under a key, in order. -/
def nodesOf (remote : RemoteIndex) (prefixHash : PrefixHash) : List String :=
  ((remote.lookup prefixHash).getD []).map RemoteBlockInfo.nodeId

theorem mem_nodesOf_iff (remote : RemoteIndex) (prefixHash : PrefixHash) (nodeId : String) :
    nodeId ∈ remote.nodesOf prefixHash ↔ (remote.entryOf prefixHash nodeId).isSome := by
  rw [isSome_entryOf_iff, nodesOf]
  cases remote.lookup prefixHash <;> simp

/-- An upsert keeps the nodes as they stand, or appends a new one. -/
theorem map_nodeId_upsert (info : RemoteBlockInfo) (entries : List RemoteBlockInfo) :
    (upsert info entries).map RemoteBlockInfo.nodeId =
      if info.nodeId ∈ entries.map RemoteBlockInfo.nodeId
      then entries.map RemoteBlockInfo.nodeId
      else entries.map RemoteBlockInfo.nodeId ++ [info.nodeId] := by
  induction entries with
  | nil => rfl
  | cons existing rest inductionHypothesis =>
      rw [upsert, List.map_cons]
      by_cases sameNode : existing.nodeId = info.nodeId
      · rw [if_pos sameNode, List.map_cons, if_pos (by rw [sameNode]; exact List.mem_cons_self),
          sameNode]
      · have elsewhere : info.nodeId ∈ existing.nodeId :: rest.map RemoteBlockInfo.nodeId ↔
            info.nodeId ∈ rest.map RemoteBlockInfo.nodeId :=
          List.mem_cons.trans (or_iff_right (Ne.symm sameNode))
        rw [if_neg sameNode, List.map_cons, inductionHypothesis]
        simp only [elsewhere]
        split_ifs <;> rfl

theorem nodesOf_insert (remote : RemoteIndex) (inserted prefixHash : PrefixHash)
    (info : RemoteBlockInfo) :
    (remote.insert inserted info).nodesOf prefixHash =
      if inserted = prefixHash ∧ info.nodeId ∉ remote.nodesOf prefixHash
      then remote.nodesOf prefixHash ++ [info.nodeId]
      else remote.nodesOf prefixHash := by
  by_cases same : inserted = prefixHash
  · subst same
    rw [nodesOf, lookup_insert_self, Option.getD_some, map_nodeId_upsert, nodesOf]
    split_ifs <;> simp_all
  · rw [nodesOf, lookup_insert_ne same, if_neg (fun both => same both.1), nodesOf]

theorem nodesOf_remove (remote : RemoteIndex) (removed prefixHash : PrefixHash) :
    (remote.remove removed).nodesOf prefixHash =
      if removed = prefixHash then [] else remote.nodesOf prefixHash := by
  rw [nodesOf, lookup_remove, nodesOf]
  split_ifs <;> rfl

theorem nodesOf_removeNode (remote : RemoteIndex) (removed : String) (prefixHash : PrefixHash) :
    (remote.removeNode removed).nodesOf prefixHash =
      (remote.nodesOf prefixHash).filter (· ≠ removed) := by
  rw [nodesOf, lookup_removeNode, nodesOf]
  cases remote.lookup prefixHash with
  | none => rfl
  | some entries =>
      rw [Option.bind_some, Option.getD_some, othersOf, List.filter_map]
      split_ifs with nobody
      · exact congrArg (List.map _) (List.isEmpty_iff.mp nobody).symm
      · rfl

/-- The nodes stand without repetition, in the order they arrived. -/
structure InArrivalOrder (calls : List RemoteCall) (prefixHash : PrefixHash)
    (nodes : List String) : Prop where
  nodup : nodes.Nodup
  arrived : ∀ nodeId ∈ nodes, ∃ position, ArrivedAt calls prefixHash nodeId position
  ordered : nodes.Pairwise (ArrivedBefore calls prefixHash)

section InArrivalOrder

variable {calls : List RemoteCall} {prefixHash : PrefixHash} {nodes : List String}

/-- A call that drops none of the nodes kept leaves them in order. -/
theorem InArrivalOrder.sublist (inOrder : InArrivalOrder calls prefixHash nodes)
    {kept : List String} (sublist : kept.Sublist nodes) {call : RemoteCall}
    (spared : ∀ nodeId ∈ kept, ¬ call.Drops prefixHash nodeId) :
    InArrivalOrder (calls ++ [call]) prefixHash kept where
  nodup := inOrder.nodup.sublist sublist
  arrived := by
    intro nodeId member
    obtain ⟨position, arrived⟩ := inOrder.arrived nodeId (sublist.subset member)
    exact ⟨position, arrived.concat (spared nodeId member)⟩
  ordered := by
    refine (inOrder.ordered.sublist sublist).imp_of_mem ?_
    intro earlier later memberEarlier memberLater before
    exact before.concat (spared earlier memberEarlier) (spared later memberLater)

/-- A node that was absent arrives last. -/
theorem InArrivalOrder.append (inOrder : InArrivalOrder calls prefixHash nodes)
    {info : RemoteBlockInfo} (absent : info.nodeId ∉ nodes)
    (gone : ¬ Survives calls prefixHash info.nodeId) :
    InArrivalOrder (calls ++ [.insert prefixHash info]) prefixHash (nodes ++ [info.nodeId]) := by
  have others : InArrivalOrder (calls ++ [.insert prefixHash info]) prefixHash nodes :=
    inOrder.sublist (List.Sublist.refl nodes) (by simp [Drops])
  have arrives : ArrivedAt (calls ++ [.insert prefixHash info]) prefixHash info.nodeId
      calls.length :=
    (since_concat _ _).mpr (Or.inl ⟨rfl, inserts_insert prefixHash info, gone⟩)
  constructor
  · rw [List.nodup_append]
    refine ⟨others.nodup, List.nodup_singleton _, ?_⟩
    intro nodeId member other isInserted same
    rw [same, List.mem_singleton.mp isInserted] at member
    exact absent member
  · intro nodeId member
    rcases List.mem_append.mp member with old | isInserted
    · exact others.arrived nodeId old
    · rw [List.mem_singleton.mp isInserted]
      exact ⟨calls.length, arrives⟩
  · rw [List.pairwise_append]
    refine ⟨others.ordered, List.pairwise_singleton _ _, ?_⟩
    intro nodeId member other isInserted
    rw [List.mem_singleton.mp isInserted]
    obtain ⟨position, arrived⟩ := inOrder.arrived nodeId member
    exact ⟨position, calls.length, arrived.concat (by simp [Drops]), arrives, arrived.lt_length⟩

end InArrivalOrder

/-- Along every run the nodes under a key stand in the order they arrived. -/
theorem nodesOf_run (calls : List RemoteCall) (prefixHash : PrefixHash) :
    InArrivalOrder calls prefixHash ((run step new calls).nodesOf prefixHash) := by
  induction calls using List.reverseRecOn with
  | nil => exact ⟨List.nodup_nil, by simp [nodesOf, new, lookup], List.Pairwise.nil⟩
  | append_singleton calls call inductionHypothesis =>
      rw [run_append, run_cons, run_nil]
      cases call with
      | insert inserted info =>
          rw [step, nodesOf_insert]
          by_cases newcomer : inserted = prefixHash ∧
              info.nodeId ∉ (run step new calls).nodesOf prefixHash
          · obtain ⟨rfl, absent⟩ := newcomer
            rw [if_pos ⟨rfl, absent⟩]
            refine inductionHypothesis.append absent ?_
            rwa [← isSome_entryOf_run, ← mem_nodesOf_iff]
          · rw [if_neg newcomer]
            exact inductionHypothesis.sublist (List.Sublist.refl _) (by simp [Drops])
      | remove removed =>
          rw [step, nodesOf_remove]
          by_cases same : removed = prefixHash
          · rw [if_pos same]
            exact inductionHypothesis.sublist (List.nil_sublist _) (by simp)
          · rw [if_neg same]
            exact inductionHypothesis.sublist (List.Sublist.refl _) (by simp [Drops, same])
      | removeNode removed =>
          rw [step, nodesOf_removeNode]
          refine inductionHypothesis.sublist List.filter_sublist ?_
          intro nodeId member
          have other : nodeId ≠ removed := by simpa using List.of_mem_filter member
          simp [Drops, Ne.symm other]

/-! ## The index is its history -/

/-- No key is ever left with an empty list. -/
theorem lookup_run_ne_nil (calls : List RemoteCall) (prefixHash : PrefixHash) :
    (run step new calls).lookup prefixHash ≠ some [] := by
  refine @run_invariant _ _ step (fun remote => remote.lookup prefixHash ≠ some []) ?_ new
    (by simp [new, lookup]) calls
  intro remote call nonempty
  cases call with
  | insert inserted info =>
      by_cases same : inserted = prefixHash
      · subst same
        rw [step, lookup_insert_self]
        intro empty
        have found := ofNode_upsert info info.nodeId ((remote.lookup inserted).getD [])
        rw [Option.some.inj empty, if_pos rfl] at found
        cases found
      · rw [step, lookup_insert_ne same]
        exact nonempty
  | remove removed =>
      rw [step, lookup_remove]
      split_ifs
      · simp
      · exact nonempty
  | removeNode removed =>
      rw [step, lookup_removeNode]
      intro empty
      obtain ⟨entries, -, kept⟩ := Option.bind_eq_some_iff.mp empty
      rw [othersOf] at kept
      split_ifs at kept with nobody
      exact nobody (by rw [Option.some.inj kept]; rfl)

/-- Under distinct nodes a record is listed exactly when it is its node's. -/
theorem mem_iff_ofNode {entries : List RemoteBlockInfo}
    (nodup : (entries.map RemoteBlockInfo.nodeId).Nodup) (info : RemoteBlockInfo) :
    info ∈ entries ↔ ofNode info.nodeId entries = some info := by
  induction entries with
  | nil => simp
  | cons existing rest inductionHypothesis =>
      obtain ⟨apart, nodupRest⟩ := List.nodup_cons.mp nodup
      rw [ofNode_cons, List.mem_cons, inductionHypothesis nodupRest]
      split_ifs with sameNode
      · have elsewhere : ofNode info.nodeId rest ≠ some info := by
          intro found
          exact apart (sameNode ▸ List.mem_map_of_mem (List.mem_of_find?_eq_some found))
        simp [elsewhere, eq_comm]
      · have different : info ≠ existing := fun same => sameNode (congrArg _ same.symm)
        simp [different]

/-- After any calls, a key has no answer exactly when no node survives under it.
Otherwise the answer is a non-empty list of distinct nodes: exactly the surviving
ones, each with the record of its latest insert, in the order in which they arrived,
and each arrived at one call. -/
theorem lookup_is_history (calls : List RemoteCall) (prefixHash : PrefixHash) :
    ((run step new calls).lookup prefixHash = none ↔
      ∀ nodeId, ¬ Survives calls prefixHash nodeId) ∧
    ∀ entries, (run step new calls).lookup prefixHash = some entries →
      entries ≠ [] ∧ (entries.map RemoteBlockInfo.nodeId).Nodup ∧
      (∀ nodeId, nodeId ∈ entries.map RemoteBlockInfo.nodeId ↔
        Survives calls prefixHash nodeId) ∧
      (∀ info, info ∈ entries ↔
        Survives calls prefixHash info.nodeId ∧ Latest calls prefixHash info) ∧
      (entries.map RemoteBlockInfo.nodeId).Pairwise (ArrivedBefore calls prefixHash) ∧
      ∀ nodeId, Survives calls prefixHash nodeId →
        ∃! position, ArrivedAt calls prefixHash nodeId position := by
  have nodes : ∀ nodeId, nodeId ∈ (run step new calls).nodesOf prefixHash ↔
      Survives calls prefixHash nodeId := fun nodeId =>
    (mem_nodesOf_iff _ prefixHash nodeId).trans (isSome_entryOf_run calls prefixHash nodeId)
  have inOrder := nodesOf_run calls prefixHash
  have nonempty := lookup_run_ne_nil calls prefixHash
  have records := entryOf_run calls prefixHash
  rw [nodesOf] at nodes inOrder
  simp only [entryOf] at records
  cases looked : (run step new calls).lookup prefixHash with
  | none =>
      rw [looked] at nodes
      exact ⟨iff_of_true rfl fun nodeId => (nodes nodeId).not.mp List.not_mem_nil, by simp⟩
  | some entries =>
      rw [looked] at nodes inOrder nonempty
      simp only [looked, Option.bind_some, Option.getD_some] at records nodes inOrder
      have isNonempty : entries ≠ [] := fun empty => nonempty (congrArg some empty)
      refine ⟨?_, ?_⟩
      · refine iff_of_false (by simp) ?_
        intro nobody
        obtain ⟨info, member⟩ := List.exists_mem_of_ne_nil entries isNonempty
        exact nobody info.nodeId ((nodes info.nodeId).mp (List.mem_map_of_mem member))
      · intro listed same
        obtain rfl := Option.some.inj same
        exact ⟨isNonempty, inOrder.nodup, nodes,
          fun info => (mem_iff_ofNode inOrder.nodup info).trans (records info),
          inOrder.ordered, fun nodeId survives => survives.existsUnique_arrivedAt⟩

end RemoteIndex

end CmxRdma.Agent
