import Mathlib.Logic.Function.Basic
import CmxRdma.Agent.Placement
import CmxRdma.Agent.RemoteIndex
import CmxRdma.Lib.LeasedStore

/-!
Contract: `cmx-agent/src/metadata.rs` and the part of etcd it relies on.

Owns: the keys of nodes and blocks and what the watches recover from them, the
records a `MetadataClient` puts and the changes it asks for, what the two watch
loops do with one event, and etcd itself: leases, one record for each key, bound to
the lease it was put under if there was one, the events a change adds to the
watches, and a revision that every change of a record advances.

Does not own: the order in which watches deliver and agents act; see `Cluster`
and `Publishing`. How calls fail and the order of `main`; see `Leases`. Values are
records here, not their JSON text: neither kind of record has the fields of the
other. A watch stream that ends is left out.
-/

namespace CmxRdma.Agent

open CmxRdma.Lib.LeasedStore
open CmxRdma.Lib.Text

/-! ## Keys -/

def nodeDirectory : String := "/cmx/nodes/"

def blockDirectory : String := "/cmx/blocks/"

def nodeKey (nodeId : String) : String := nodeDirectory ++ nodeId

def blockKey (prefixHash : PrefixHash) : String :=
  blockDirectory ++ String.ofList (hexEncode prefixHash.toBytes)

/-- The node id `watch_nodes` reads from a key. -/
def nodeIdOf (key : String) : String :=
  String.ofList (trimStartMatches nodeDirectory.toList key.toList)

/-- The prefix hash `watch_blocks` reads from a key, if there is one. -/
def blockHashOf (key : String) : Option PrefixHash :=
  (hexDecode (trimStartMatches blockDirectory.toList key.toList)).bind PrefixHash.ofBytes?

/-- A node id that does not itself start with the directory of the node keys. -/
def PlainId (nodeId : String) : Prop := ¬ nodeDirectory.toList <+: nodeId.toList

instance (nodeId : String) : Decidable (PlainId nodeId) :=
  inferInstanceAs (Decidable (¬ _ <+: _))

/-- The watch reads back the ids that are plain, and no others. -/
theorem nodeIdOf_nodeKey_iff (nodeId : String) :
    nodeIdOf (nodeKey nodeId) = nodeId ↔ PlainId nodeId := by
  rw [nodeIdOf, nodeKey, String.toList_append, PlainId,
    ← trimStartMatches_append_eq_iff (by decide), ← String.toList_inj, String.toList_ofList]

theorem nodeIdOf_nodeKey {nodeId : String} (plain : PlainId nodeId) :
    nodeIdOf (nodeKey nodeId) = nodeId :=
  (nodeIdOf_nodeKey_iff nodeId).mpr plain

/-- Different nodes register under different keys. -/
theorem nodeKey_injective : Function.Injective nodeKey := by
  intro left right sameKey
  have sameChars := congrArg String.toList sameKey
  rw [nodeKey, nodeKey, String.toList_append, String.toList_append] at sameChars
  exact String.toList_inj.mp (List.append_cancel_left sameChars)

theorem blockHashOf_blockKey (prefixHash : PrefixHash) :
    blockHashOf (blockKey prefixHash) = some prefixHash := by
  have other : ¬ blockDirectory.toList <+: hexEncode prefixHash.toBytes := by
    rintro ⟨rest, whole⟩
    have slash := head?_hexEncode_ne_slash prefixHash.toBytes
    rw [← whole] at slash
    exact slash rfl
  rw [blockHashOf, blockKey, String.toList_append, String.toList_ofList,
    trimStartMatches_append (by decide) other, hexDecode_hexEncode, Option.bind_some,
    PrefixHash.ofBytes?_toBytes]

/-- Different prefix hashes are published under different keys. -/
theorem blockKey_injective : Function.Injective blockKey := by
  intro left right sameKey
  have sameHash := congrArg blockHashOf sameKey
  rwa [blockHashOf_blockKey, blockHashOf_blockKey, Option.some.injEq] at sameHash

/-- What a watch on a directory is told about. -/
def inDirectory (directory key : String) : Bool := directory.toList.isPrefixOf key.toList

theorem inDirectory_nodeKey (nodeId : String) : inDirectory nodeDirectory (nodeKey nodeId) := by
  rw [inDirectory, nodeKey, String.toList_append, List.isPrefixOf_iff_prefix]
  exact List.prefix_append _ _

theorem inDirectory_blockKey (prefixHash : PrefixHash) :
    inDirectory blockDirectory (blockKey prefixHash) := by
  rw [inDirectory, blockKey, String.toList_append, List.isPrefixOf_iff_prefix]
  exact List.prefix_append _ _

/-- The key of a node is not the key of a block, and not in the directory of blocks. -/
theorem not_inDirectory_nodeKey (nodeId : String) :
    ¬ inDirectory blockDirectory (nodeKey nodeId) := by
  rw [inDirectory, nodeKey, String.toList_append, List.isPrefixOf_iff_prefix]
  intro within
  have sameFront := congrArg (List.take 6) (List.prefix_iff_eq_take.mp within)
  exact absurd sameFront (by simp [nodeDirectory, blockDirectory])

theorem not_inDirectory_blockKey (prefixHash : PrefixHash) :
    ¬ inDirectory nodeDirectory (blockKey prefixHash) := by
  rw [inDirectory, blockKey, String.toList_append, List.isPrefixOf_iff_prefix]
  intro within
  have sameFront := congrArg (List.take 6) (List.prefix_iff_eq_take.mp within)
  exact absurd sameFront (by simp [nodeDirectory, blockDirectory])

theorem nodeKey_ne_blockKey (nodeId : String) (prefixHash : PrefixHash) :
    nodeKey nodeId ≠ blockKey prefixHash := by
  intro same
  exact not_inDirectory_nodeKey nodeId (same ▸ inDirectory_blockKey prefixHash)

/-! ## Records and events -/

structure BlockLocationMeta where
  nodeId : String
  nodeAddr : String
  offset : UInt64
  size : UInt64
  generation : UInt64
deriving DecidableEq

/-- The remote index entry made from a record. -/
def BlockLocationMeta.info (record : BlockLocationMeta) : RemoteBlockInfo where
  nodeId := record.nodeId
  nodeAddr := record.nodeAddr
  offset := record.offset
  size := record.size
  generation := record.generation

inductive BlockEvent where
  | put (key : String) (value : BlockLocationMeta)
  | delete (key : String)
deriving DecidableEq

inductive NodeEvent where
  | put (key : String)
  | delete (key : String)
deriving DecidableEq

/-- One event of `watch_blocks`. -/
def watchBlocks (remote : RemoteIndex) : BlockEvent → RemoteIndex
  | .put key value =>
      match blockHashOf key with
      | none => remote
      | some prefixHash => remote.insert prefixHash value.info
  | .delete key =>
      match blockHashOf key with
      | none => remote
      | some prefixHash => remote.remove prefixHash

/-- One event of `watch_nodes`: what it does to the remote index. -/
def watchNodesIndex (remote : RemoteIndex) : NodeEvent → RemoteIndex
  | .put _ => remote
  | .delete key => remote.removeNode (nodeIdOf key)

/-- One event of `watch_nodes`: what it does to the hash ring. -/
def watchNodesRing (platform : Platform) (hashRing : HashRing) : NodeEvent → HashRing
  | .put key => hashRing.addNode platform (nodeIdOf key)
  | .delete key => hashRing.removeNode (nodeIdOf key)

/-! ## Clients -/

structure NodeInfo where
  nodeId : String
  addr : String
deriving DecidableEq

inductive MetadataValue where
  | node (info : NodeInfo)
  | block (location : BlockLocationMeta)
deriving DecidableEq

/-- The node a record names. -/
def MetadataValue.nodeId : MetadataValue → String
  | .node info => info.nodeId
  | .block location => location.nodeId

abbrev MetadataStore := Store String MetadataValue

abbrev MetadataChange := Change String MetadataValue

structure MetadataClient where
  nodeId : String
  nodeAddr : String
  leaseId : Option Nat
deriving DecidableEq

namespace MetadataClient

def connect (nodeId nodeAddr : String) : MetadataClient where
  nodeId := nodeId
  nodeAddr := nodeAddr
  leaseId := none

/-- `register_node` once its first call is answered: the id of the lease etcd granted. -/
def setLease (client : MetadataClient) (etcd : MetadataStore) : MetadataClient :=
  { client with leaseId := some etcd.granted }

/-- The second call of `register_node`. -/
def putNode (client : MetadataClient) : MetadataChange :=
  .put (nodeKey client.nodeId) ⟨.node ⟨client.nodeId, client.nodeAddr⟩, client.leaseId⟩

def location (client : MetadataClient) (offset size generation : UInt64) : BlockLocationMeta where
  nodeId := client.nodeId
  nodeAddr := client.nodeAddr
  offset := offset
  size := size
  generation := generation

/-- A client without a lease publishes without one. -/
def publishBlock (client : MetadataClient) (prefixHash : PrefixHash)
    (offset size generation : UInt64) : MetadataChange :=
  .put (blockKey prefixHash) ⟨.block (client.location offset size generation), client.leaseId⟩

/-- A client without a lease revokes nothing and succeeds. -/
def revokeLease (client : MetadataClient) : Option MetadataChange :=
  client.leaseId.map .finish

end MetadataClient

/-! ## etcd -/

/-- A change of etcd: a lease is granted, a node or a block is put, under a lease or
without one, or a lease ends, because it runs out or is revoked. -/
inductive EtcdOp where
  | grant
  | putNode (info : NodeInfo) (lease : Option Nat)
  | put (prefixHash : PrefixHash) (value : BlockLocationMeta) (lease : Option Nat)
  | finish (lease : Nat)
deriving DecidableEq

def EtcdOp.change : EtcdOp → MetadataChange
  | .grant => .grant
  | .putNode info lease => .put (nodeKey info.nodeId) ⟨.node info, lease⟩
  | .put prefixHash value lease => .put (blockKey prefixHash) ⟨.block value, lease⟩
  | .finish lease => .finish lease

/-- Every record is under the key of its node or of a prefix hash. -/
def Keyed (store : MetadataStore) : Prop :=
  ∀ key record, store.records.lookup key = some record →
    (∃ info, record.value = .node info ∧ key = nodeKey info.nodeId) ∨
      ∃ prefixHash location, record.value = .block location ∧ key = blockKey prefixHash

theorem Keyed.apply {store : MetadataStore} (keyed : Keyed store) (op : EtcdOp) :
    Keyed (store.apply op.change) := by
  intro key record found
  rcases (store.lookup_apply key record op.change).mp found with ⟨isPut, -⟩ | ⟨old, -⟩
  · cases op with
    | grant => cases isPut
    | putNode info lease =>
        cases isPut
        exact Or.inl ⟨info, rfl, rfl⟩
    | put prefixHash value lease =>
        cases isPut
        exact Or.inr ⟨prefixHash, value, rfl, rfl⟩
    | finish lease => cases isPut
  · exact keyed key record old

/-- The records of the agents, the revision, and for each node the revision of the last
put of its key. -/
structure Etcd where
  store : MetadataStore
  revision : Nat
  nodeRevision : String → Nat
  keyed : Keyed store

namespace Etcd

def new : Etcd where
  store := .empty
  revision := 0
  nodeRevision := fun _ => 0
  keyed := by
    intro key record found
    cases found

def Registered (etcd : Etcd) (nodeId : String) : Prop := nodeKey nodeId ∈ etcd.store.records

instance (etcd : Etcd) (nodeId : String) : Decidable (etcd.Registered nodeId) :=
  inferInstanceAs (Decidable (nodeKey nodeId ∈ etcd.store.records))

/-- A put without a lease is always taken, one under a lease while the lease is live. -/
def Accepts (etcd : Etcd) (lease : Option Nat) : Prop := ∀ held ∈ lease, held ∈ etcd.store.live

instance (etcd : Etcd) (lease : Option Nat) : Decidable (etcd.Accepts lease) :=
  inferInstanceAs (Decidable (∀ held ∈ lease, held ∈ etcd.store.live))

/-- The location under the key of a prefix hash, with the lease the key is bound to. -/
def blockRecord (etcd : Etcd) (prefixHash : PrefixHash) : Option (Leased BlockLocationMeta) :=
  match etcd.store.records.lookup (blockKey prefixHash) with
  | some ⟨.block location, lease⟩ => some ⟨location, lease⟩
  | _ => none

/-- The lease the key of a prefix hash is bound to. -/
def leaseOf (etcd : Etcd) (prefixHash : PrefixHash) : Option Nat :=
  (etcd.blockRecord prefixHash).bind Leased.lease

/-- The keys of a directory that are bound to a lease. -/
def boundIn (etcd : Etcd) (directory : String) (lease : Nat) : List String :=
  (etcd.store.boundTo lease).filter (inDirectory directory)

/-- The change puts a record or takes one away. -/
def Advances (etcd : Etcd) : EtcdOp → Prop
  | .grant => False
  | .putNode _ lease => etcd.Accepts lease
  | .put _ _ lease => etcd.Accepts lease
  | .finish lease => etcd.store.boundTo lease ≠ []

instance (etcd : Etcd) (op : EtcdOp) : Decidable (etcd.Advances op) :=
  match op with
  | .grant => inferInstanceAs (Decidable False)
  | .putNode _ lease => inferInstanceAs (Decidable (etcd.Accepts lease))
  | .put _ _ lease => inferInstanceAs (Decidable (etcd.Accepts lease))
  | .finish _ => inferInstanceAs (Decidable (_ ≠ _))

def apply (etcd : Etcd) (op : EtcdOp) : Etcd where
  store := etcd.store.apply op.change
  revision := if etcd.Advances op then etcd.revision + 1 else etcd.revision
  nodeRevision :=
    match op with
    | .putNode info lease =>
        if etcd.Accepts lease then
          Function.update etcd.nodeRevision info.nodeId (etcd.revision + 1)
        else etcd.nodeRevision
    | _ => etcd.nodeRevision
  keyed := etcd.keyed.apply op

@[simp] theorem store_apply (etcd : Etcd) (op : EtcdOp) :
    (etcd.apply op).store = etcd.store.apply op.change := rfl

theorem revision_le_apply (etcd : Etcd) (op : EtcdOp) :
    etcd.revision ≤ (etcd.apply op).revision := by
  simp only [apply]
  split_ifs <;> omega

/-- A put of a node's key gives it the revision of the put. -/
theorem nodeRevision_putNode {etcd : Etcd} {info : NodeInfo} {lease : Option Nat}
    (accepted : etcd.Accepts lease) :
    (etcd.apply (.putNode info lease)).nodeRevision =
        Function.update etcd.nodeRevision info.nodeId (etcd.revision + 1) ∧
      (etcd.apply (.putNode info lease)).revision = etcd.revision + 1 :=
  ⟨if_pos accepted, if_pos accepted⟩

/-- The events a change adds to the watches of the blocks. -/
def blockEvents (etcd : Etcd) : EtcdOp → List BlockEvent
  | .grant => []
  | .putNode _ _ => []
  | .put prefixHash value lease =>
      if etcd.Accepts lease then [.put (blockKey prefixHash) value] else []
  | .finish lease => (etcd.boundIn blockDirectory lease).map .delete

/-- The events a change adds to the watches of the nodes. A node that registers again
is put again. -/
def nodeEvents (etcd : Etcd) : EtcdOp → List NodeEvent
  | .grant => []
  | .putNode info lease => if etcd.Accepts lease then [.put (nodeKey info.nodeId)] else []
  | .put _ _ _ => []
  | .finish lease => (etcd.boundIn nodeDirectory lease).map .delete

section Records

variable {etcd : Etcd} {prefixHash : PrefixHash} {nodeId : String}

theorem blockRecord_eq_some {record : Leased BlockLocationMeta} :
    etcd.blockRecord prefixHash = some record ↔
      etcd.store.records.lookup (blockKey prefixHash) =
        some ⟨.block record.value, record.lease⟩ := by
  unfold blockRecord
  split
  · rename_i location lease found
    obtain ⟨value, held⟩ := record
    simp only [found, Option.some.injEq, Leased.mk.injEq, MetadataValue.block.injEq]
  · rename_i other
    refine iff_of_false nofun ?_
    exact other record.value record.lease

theorem leaseOf_eq_some {lease : Nat} :
    etcd.leaseOf prefixHash = some lease ↔
      ∃ value, etcd.blockRecord prefixHash = some ⟨value, some lease⟩ := by
  rw [leaseOf, Option.bind_eq_some_iff]
  constructor
  · rintro ⟨⟨value, _⟩, found, rfl⟩
    exact ⟨value, found⟩
  · rintro ⟨value, found⟩
    exact ⟨_, found, rfl⟩

/-- Of the keys in the directory of blocks, those bound to a lease are the keys of the
prefix hashes bound to it. -/
theorem mem_boundIn_blocks {key : String} {lease : Nat} :
    key ∈ etcd.boundIn blockDirectory lease ↔
      ∃ prefixHash, key = blockKey prefixHash ∧ etcd.leaseOf prefixHash = some lease := by
  rw [boundIn, List.mem_filter, Store.mem_boundTo]
  constructor
  · rintro ⟨⟨record, found, bound⟩, inBlocks⟩
    rcases etcd.keyed key record found with
      ⟨info, -, rfl⟩ | ⟨prefixHash, location, isBlock, rfl⟩
    · exact absurd inBlocks (not_inDirectory_nodeKey info.nodeId)
    · refine ⟨prefixHash, rfl, leaseOf_eq_some.mpr ⟨location, blockRecord_eq_some.mpr ?_⟩⟩
      rw [found, ← isBlock, ← bound]
  · rintro ⟨prefixHash, rfl, bound⟩
    obtain ⟨value, found⟩ := leaseOf_eq_some.mp bound
    exact ⟨⟨_, blockRecord_eq_some.mp found, rfl⟩, inDirectory_blockKey prefixHash⟩

theorem mem_boundIn_nodes {key : String} {lease : Nat} :
    key ∈ etcd.boundIn nodeDirectory lease ↔
      ∃ nodeId record, key = nodeKey nodeId ∧
        etcd.store.records.lookup (nodeKey nodeId) = some record ∧ record.lease = some lease := by
  rw [boundIn, List.mem_filter, Store.mem_boundTo]
  constructor
  · rintro ⟨⟨record, found, bound⟩, inNodes⟩
    rcases etcd.keyed key record found with
      ⟨info, -, rfl⟩ | ⟨prefixHash, location, -, rfl⟩
    · exact ⟨info.nodeId, record, rfl, found, bound⟩
    · exact absurd inNodes (not_inDirectory_blockKey prefixHash)
  · rintro ⟨nodeId, record, rfl, found, bound⟩
    exact ⟨⟨record, found, bound⟩, inDirectory_nodeKey nodeId⟩

end Records

/-- A put that is announced was made. -/
theorem put_of_mem_blockEvents {etcd : Etcd} {op : EtcdOp} {key : String}
    {value : BlockLocationMeta} (queued : BlockEvent.put key value ∈ etcd.blockEvents op) :
    ∃ prefixHash lease, op = .put prefixHash value lease ∧ key = blockKey prefixHash := by
  cases op with
  | grant => cases queued
  | putNode info lease => cases queued
  | put prefixHash record lease =>
      simp only [blockEvents] at queued
      split_ifs at queued
      · obtain ⟨rfl, rfl⟩ := BlockEvent.put.inj (List.mem_singleton.mp queued)
        exact ⟨prefixHash, lease, rfl, rfl⟩
      · cases queued
  | finish lease => simp [blockEvents] at queued

/-- The changes after which a prefix hash has another record or none. -/
def Overwrites (etcd : Etcd) (prefixHash : PrefixHash) : EtcdOp → Prop
  | .grant => False
  | .putNode _ _ => False
  | .put putHash _ lease => putHash = prefixHash ∧ etcd.Accepts lease
  | .finish lease => etcd.leaseOf prefixHash = some lease

instance (etcd : Etcd) (prefixHash : PrefixHash) (op : EtcdOp) :
    Decidable (etcd.Overwrites prefixHash op) :=
  match op with
  | .grant => inferInstanceAs (Decidable False)
  | .putNode _ _ => inferInstanceAs (Decidable False)
  | .put _ _ _ => inferInstanceAs (Decidable (_ ∧ _))
  | .finish _ => inferInstanceAs (Decidable (_ = _))

/-- A change leaves a record under a prefix hash exactly when it puts the record or
does not overwrite it. -/
theorem blockRecord_apply {etcd : Etcd} {prefixHash : PrefixHash}
    {record : Leased BlockLocationMeta} {op : EtcdOp} :
    (etcd.apply op).blockRecord prefixHash = some record ↔
      op = .put prefixHash record.value record.lease ∧ etcd.Accepts record.lease ∨
        etcd.blockRecord prefixHash = some record ∧ ¬ etcd.Overwrites prefixHash op := by
  have puts : op.change = .put (blockKey prefixHash) ⟨.block record.value, record.lease⟩ ↔
      op = .put prefixHash record.value record.lease := by
    cases op with
    | grant => exact iff_of_false nofun nofun
    | putNode info lease =>
        refine iff_of_false (fun same => ?_) nofun
        exact nodeKey_ne_blockKey _ _ (Change.put.inj same).1
    | put putHash value lease => simp [EtcdOp.change, blockKey_injective.eq_iff]
    | finish lease => exact iff_of_false nofun nofun
  have displaces : etcd.blockRecord prefixHash = some record →
      (etcd.store.Displaces (blockKey prefixHash) ⟨.block record.value, record.lease⟩ op.change ↔
        etcd.Overwrites prefixHash op) := by
    intro found
    cases op with
    | grant => exact Iff.rfl
    | putNode info lease =>
        exact iff_of_false (fun same => nodeKey_ne_blockKey _ _ same.1) id
    | put putHash value lease =>
        exact and_congr blockKey_injective.eq_iff Iff.rfl
    | finish lease =>
        rw [Overwrites, leaseOf, found]
        exact Iff.rfl
  rw [blockRecord_eq_some, store_apply, Store.lookup_apply, puts, ← blockRecord_eq_some]
  exact or_congr Iff.rfl (and_congr_right fun found => not_congr (displaces found))

/-- The changes after which a node is not registered any more. -/
def Unregisters (etcd : Etcd) (nodeId : String) : EtcdOp → Prop
  | .finish lease => nodeKey nodeId ∈ etcd.boundIn nodeDirectory lease
  | _ => False

/-- A node is registered after a change exactly when the change puts its key or it was
registered and its lease does not end. -/
theorem registered_apply {etcd : Etcd} {nodeId : String} {op : EtcdOp} :
    (etcd.apply op).Registered nodeId ↔
      (∃ info lease, op = .putNode info lease ∧ info.nodeId = nodeId ∧ etcd.Accepts lease) ∨
        etcd.Registered nodeId ∧ ¬ etcd.Unregisters nodeId op := by
  simp only [Registered, ← AList.lookup_isSome, Option.isSome_iff_exists]
  have registers : ∀ info lease, etcd.Accepts lease → ∃ record,
      (etcd.apply (.putNode info lease)).store.records.lookup (nodeKey info.nodeId) =
        some record :=
    fun info lease accepted =>
      ⟨⟨.node info, lease⟩, (etcd.store.lookup_apply _ _ _).mpr (Or.inl ⟨rfl, accepted⟩)⟩
  constructor
  · rintro ⟨record, found⟩
    rcases (etcd.store.lookup_apply _ record op.change).mp found with
      ⟨isPut, accepted⟩ | ⟨old, kept⟩
    · cases op with
      | grant => cases isPut
      | putNode info lease =>
          obtain ⟨sameKey, rfl⟩ := Change.put.inj isPut
          exact Or.inl ⟨info, lease, rfl, nodeKey_injective sameKey, accepted⟩
      | put prefixHash value lease =>
          exact absurd (Change.put.inj isPut).1.symm (nodeKey_ne_blockKey _ _)
      | finish lease => cases isPut
    · refine Or.inr ⟨⟨record, old⟩, fun ends => kept ?_⟩
      cases op with
      | finish lease =>
          obtain ⟨other, bound, sameKey, lookedUp, isBound⟩ := mem_boundIn_nodes.mp ends
          rw [← sameKey, old] at lookedUp
          exact (Option.some.inj lookedUp) ▸ isBound
      | _ => exact ends.elim
  · rintro (⟨info, lease, rfl, rfl, accepted⟩ | ⟨⟨record, old⟩, stays⟩)
    · exact registers info lease accepted
    · by_cases again : ∃ info lease, op = .putNode info lease ∧ info.nodeId = nodeId ∧
          etcd.Accepts lease
      · obtain ⟨info, lease, rfl, rfl, accepted⟩ := again
        exact registers info lease accepted
      · refine ⟨record, (etcd.store.lookup_apply _ _ _).mpr (Or.inr ⟨old, fun displaced => ?_⟩)⟩
        cases op with
        | grant => exact displaced
        | putNode info lease =>
            exact again ⟨info, lease, rfl, nodeKey_injective displaced.1, displaced.2⟩
        | put prefixHash value lease => exact nodeKey_ne_blockKey _ _ displaced.1.symm
        | finish lease =>
            exact stays (mem_boundIn_nodes.mpr ⟨nodeId, record, rfl, old, displaced⟩)

/-- Only the put of a node key and the end of a lease change who is registered. -/
theorem registered_apply_of_quiet {etcd : Etcd} {op : EtcdOp}
    (noPut : ∀ info lease, op = .putNode info lease → ¬ etcd.Accepts lease)
    (noEnd : ∀ lease, op ≠ .finish lease) (nodeId : String) :
    (etcd.apply op).Registered nodeId ↔ etcd.Registered nodeId := by
  have stays : ¬ etcd.Unregisters nodeId op := by
    intro ends
    cases op with
    | finish lease => exact noEnd lease rfl
    | _ => exact ends
  rw [registered_apply, and_iff_left stays, or_iff_right]
  rintro ⟨info, lease, isPut, -, accepted⟩
  exact noPut info lease isPut accepted

theorem registered_putNode {etcd : Etcd} {info : NodeInfo} {lease : Option Nat}
    (accepted : etcd.Accepts lease) (nodeId : String) :
    (etcd.apply (.putNode info lease)).Registered nodeId ↔
      nodeId = info.nodeId ∨ etcd.Registered nodeId := by
  rw [registered_apply]
  simp [accepted, Unregisters, eq_comm]

theorem registered_finish {etcd : Etcd} {lease : Nat} (nodeId : String) :
    (etcd.apply (.finish lease)).Registered nodeId ↔
      etcd.Registered nodeId ∧ nodeKey nodeId ∉ etcd.boundIn nodeDirectory lease := by
  rw [registered_apply]
  simp [Unregisters]

theorem registered_of_bound {etcd : Etcd} {nodeId : String} {lease : Nat}
    (bound : nodeKey nodeId ∈ etcd.boundIn nodeDirectory lease) : etcd.Registered nodeId := by
  obtain ⟨other, record, sameKey, found, -⟩ := mem_boundIn_nodes.mp bound
  rw [Registered, sameKey]
  exact AList.lookup_isSome.mp (Option.isSome_of_eq_some found)

end Etcd

end CmxRdma.Agent
