import CmxRdma.Agent.LeaseEnds

/-!
Contract: what the leases of etcd amount to as long as processes behave: a registry of
nodes whose locations go when they depart.

Owns: the registry; the runs in which every process is granted its lease, registers
before it serves and is alone under its node id; the change of the registry each step of
such a run makes; and that etcd then holds the nodes and locations of the registry.

Does not own: runs with a process that publishes without a lease or without a
registration, which the registry does not have; see `Leases`.
-/

namespace CmxRdma.Agent

open CmxRdma.Lib.FiniteMap
open CmxRdma.Lib.LeasedStore
open CmxRdma.Lib.Transition

/-! ## The registry -/

/-- The registered nodes and the location published last under each prefix hash. -/
structure Registry where
  nodes : AList fun _ : String => Unit
  blocks : AList fun _ : PrefixHash => BlockLocationMeta

inductive RegistryOp where
  | register (nodeId : String)
  | put (prefixHash : PrefixHash) (value : BlockLocationMeta)
  | depart (nodeId : String)
deriving DecidableEq

namespace Registry

def new : Registry where
  nodes := ∅
  blocks := ∅

def Registered (registry : Registry) (nodeId : String) : Prop := nodeId ∈ registry.nodes

instance (registry : Registry) (nodeId : String) : Decidable (registry.Registered nodeId) :=
  inferInstanceAs (Decidable (nodeId ∈ registry.nodes))

def unlessOf (nodeId : String) (value : BlockLocationMeta) : Option BlockLocationMeta :=
  if value.nodeId = nodeId then none else some value

/-- Registered nodes publish, and a node that departs takes its locations along. -/
def apply (registry : Registry) : RegistryOp → Registry
  | .register nodeId => { registry with nodes := registry.nodes.insert nodeId () }
  | .put prefixHash value =>
      if registry.Registered value.nodeId then
        { registry with blocks := registry.blocks.insert prefixHash value }
      else registry
  | .depart nodeId =>
      { nodes := registry.nodes.erase nodeId
        blocks := filterMapValues (unlessOf nodeId) registry.blocks }

end Registry

namespace Fleet

/-! ## Orderly runs -/

/-- A process starts once the leases of the earlier ones of its node have ended; the
calls of `register_node` are carried out, and the first is answered. -/
def Orderly (fleet : Fleet) : FleetAction → Prop
  | .start nodeId _ => fleet.Departed nodeId
  | .member _ (.grant fate) => fate = .answered
  | .member _ (.putNode fate) => fate ≠ .failed
  | _ => True

instance (fleet : Fleet) (action : FleetAction) : Decidable (fleet.Orderly action) :=
  match action with
  | .start nodeId _ => inferInstanceAs (Decidable (fleet.Departed nodeId))
  | .expire _ => inferInstanceAs (Decidable True)
  | .member _ (.grant _) => inferInstanceAs (Decidable (_ = _))
  | .member _ (.putNode _) => inferInstanceAs (Decidable (_ ≠ _))
  | .member _ (.publish _ _ _ _ _) => inferInstanceAs (Decidable True)
  | .member _ (.revoke _) => inferInstanceAs (Decidable True)
  | .member _ .exit => inferInstanceAs (Decidable True)

/-- What an orderly step does to one process. -/
inductive Moves (fleet : Fleet) (action : FleetAction) (position : Nat) (member : Member) :
    Member → Prop where
  | stays : Moves fleet action position member member
  | granted (connected : member.stage = .connected)
      (isGrant : action = .member position (.grant .answered))
      (made : fleet.change action = some .grant) :
      Moves fleet action position member ⟨member.client.setLease fleet.etcd, .leased⟩
  | registers (leased : member.stage = .leased)
      (made : Refuses fleet.etcd member.client.putNode ∨
        fleet.change action = some member.client.putNode) :
      Moves fleet action position member ⟨member.client, .serving⟩
  | stops (serving : member.stage = .serving) :
      Moves fleet action position member ⟨member.client, .stopping⟩
  | exits : Moves fleet action position member ⟨member.client, .exited⟩

/-- How the call of a process ends; a step without a call is as one that succeeds. -/
def result (fleet : Fleet) (member : Member) (own : MemberAction) : Except EtcdError Unit :=
  match member.asks own with
  | none => .ok ()
  | some (change, fate) => (call fleet.etcd change fate).2

theorem members_step_member {fleet : Fleet} {position : Nat} {member : Member}
    (found : fleet.members[position]? = some member) (own : MemberAction) :
    (next step fleet (.member position own)).members =
      fleet.members.set position (member.goesOn fleet.etcd (fleet.result member own) own) := by
  cases asked : member.asks own with
  | none => simp only [next, step, found, asked, result]
  | some request => simp only [next, step, found, asked, result]

theorem moves_of_orderly {fleet : Fleet} {position : Nat} {own : MemberAction}
    (orderly : fleet.Orderly (.member position own)) {member : Member}
    (found : fleet.members[position]? = some member) :
    fleet.Moves (.member position own) position member
      (member.goesOn fleet.etcd (fleet.result member own) own) := by
  cases own with
  | grant fate =>
      obtain rfl : fate = .answered := orderly
      by_cases connected : member.stage = .connected
      · have asked : member.asks (.grant .answered) = some (.grant, .answered) := if_pos connected
        have made : fleet.change (.member position (.grant .answered)) = some .grant :=
          change_member.mpr ⟨member, .answered, found, asked, nofun, id⟩
        simp only [Member.goesOn, if_pos connected, result, asked, call, Refuses]
        exact .granted connected rfl made
      · simp only [Member.goesOn, if_neg connected]
        exact .stays
  | putNode fate =>
      by_cases leased : member.stage = .leased
      · have asked : member.asks (.putNode fate) = some (member.client.putNode, fate) :=
          if_pos leased
        simp only [Member.goesOn, if_pos leased]
        refine .registers leased ?_
        by_cases refused : Refuses fleet.etcd member.client.putNode
        · exact Or.inl refused
        · exact Or.inr (change_member.mpr ⟨member, fate, found, asked, orderly, refused⟩)
      · simp only [Member.goesOn, if_neg leased]
        exact .stays
  | publish prefixHash offset size generation fate => exact .stays
  | revoke fate =>
      by_cases serving : member.stage = .serving
      · simp only [Member.goesOn, if_pos serving]
        exact .stops serving
      · simp only [Member.goesOn, if_neg serving]
        exact .stays
  | exit => exact .exits

/-- Every process after an orderly step has just started or comes from one before. -/
theorem getElem?_members_step {fleet : Fleet} {action : FleetAction}
    (orderly : fleet.Orderly action) {position : Nat} {after : Member}
    (found : (next step fleet action).members[position]? = some after) :
    (∃ nodeId nodeAddr, action = .start nodeId nodeAddr ∧ position = fleet.members.length ∧
        after = ⟨.connect nodeId nodeAddr, .connected⟩) ∨
      ∃ member, fleet.members[position]? = some member ∧
        fleet.Moves action position member after := by
  cases action with
  | expire lease => exact Or.inr ⟨after, found, .stays⟩
  | start nodeId nodeAddr =>
      have grown : (next step fleet (.start nodeId nodeAddr)).members =
        fleet.members ++ [⟨.connect nodeId nodeAddr, .connected⟩] := rfl
      rw [grown] at found
      rcases Nat.lt_or_ge position fleet.members.length with old | new
      · rw [List.getElem?_append_left old] at found
        exact Or.inr ⟨after, found, .stays⟩
      · rw [List.getElem?_append_right new, List.getElem?_singleton] at found
        split_ifs at found with first
        exact Or.inl ⟨nodeId, nodeAddr, rfl, by omega, (Option.some.inj found).symm⟩
  | member moved own =>
      refine Or.inr ?_
      cases mover : fleet.members[moved]? with
      | none =>
          have same : (next step fleet (.member moved own)).members = fleet.members := by
            simp only [next, step, mover]
          exact ⟨after, same ▸ found, .stays⟩
      | some member =>
          rw [members_step_member mover] at found
          by_cases here : moved = position
          · subst here
            rw [List.getElem?_set_self (List.getElem?_eq_some_iff.mp mover).1] at found
            obtain rfl := Option.some.inj found
            exact ⟨member, mover, moves_of_orderly orderly mover⟩
          · rw [List.getElem?_set_ne here] at found
            exact ⟨after, found, .stays⟩

/-- Only a grant changes what a process is to etcd. -/
theorem Moves.client {fleet : Fleet} {action : FleetAction} {position : Nat}
    {member after : Member} (moves : fleet.Moves action position member after) :
    after.client.nodeId = member.client.nodeId ∧
      (member.stage ≠ .connected → after.client = member.client) := by
  cases moves with
  | granted connected isGrant made => exact ⟨rfl, fun begun => absurd connected begun⟩
  | _ => exact ⟨rfl, fun _ => rfl⟩

/-- A lease a process holds after a step it held before, or was just granted. -/
theorem Moves.held {fleet : Fleet} {action : FleetAction} {position : Nat}
    {member after : Member} (moves : fleet.Moves action position member after) {lease : Nat}
    (held : lease ∈ after.client.leaseId) :
    lease ∈ member.client.leaseId ∨ lease = fleet.etcd.granted ∧
      action = .member position (.grant .answered) ∧ fleet.change action = some .grant := by
  cases moves with
  | granted connected isGrant made => exact Or.inr ⟨(Option.some.inj held).symm, isGrant, made⟩
  | _ => exact Or.inl held

/-! ## The invariant -/

/-- What holds along an orderly run: leases belong to one process each, and the earlier
processes of a node have lost theirs; no record is unbound; every key is the one of its
record; and a node is registered from the moment its process serves. -/
structure Tidy (fleet : Fleet) : Prop where
  sourced : fleet.Sourced
  leased : ∀ member ∈ fleet.members,
    member.stage = .leased ∨ member.stage = .serving ∨ member.stage = .stopping →
      member.client.leaseId ≠ none
  known : ∀ member ∈ fleet.members, ∀ lease ∈ member.client.leaseId, lease < fleet.etcd.granted
  distinct : ∀ (i j : Nat) (first second : Member), fleet.members[i]? = some first →
    fleet.members[j]? = some second → ∀ lease ∈ first.client.leaseId,
      lease ∈ second.client.leaseId → i = j
  superseded : ∀ (i j : Nat) (first second : Member), i < j → fleet.members[i]? = some first →
    fleet.members[j]? = some second → first.client.nodeId = second.client.nodeId →
      ∃ lease ∈ first.client.leaseId, fleet.etcd.Ended lease
  bound : ∀ key record, fleet.etcd.records.lookup key = some record → record.lease ≠ none
  keyed : Keyed fleet.etcd
  announced : ∀ member ∈ fleet.members, member.stage = .serving ∨ member.stage = .stopping →
    ∀ lease ∈ member.client.leaseId, lease ∈ fleet.etcd.live →
      ∃ value, fleet.etcd.records.lookup (nodeKey member.client.nodeId) = some ⟨value, some lease⟩

section Invariant

variable {fleet : Fleet}

theorem new_tidy : new.Tidy where
  sourced := run_sourced []
  leased := nofun
  known := nofun
  distinct := nofun
  superseded := nofun
  bound := nofun
  keyed := nofun
  announced := nofun

/-- One process of a node at most has a live lease. -/
theorem Tidy.eq_of_live (tidy : fleet.Tidy) {i j : Nat} {first second : Member}
    (foundFirst : fleet.members[i]? = some first) (foundSecond : fleet.members[j]? = some second)
    (sameNode : first.client.nodeId = second.client.nodeId) {lease other : Nat}
    (held : first.client.leaseId = some lease) (live : lease ∈ fleet.etcd.live)
    (otherHeld : second.client.leaseId = some other) (otherLive : other ∈ fleet.etcd.live) :
    i = j := by
  rcases Nat.lt_trichotomy i j with before | same | after
  · obtain ⟨ended, isLease, gone⟩ := tidy.superseded i j first second before foundFirst
      foundSecond sameNode
    obtain rfl := Option.some.inj (held.symm.trans isLease)
    exact absurd live gone.2
  · exact same
  · obtain ⟨ended, isLease, gone⟩ := tidy.superseded j i second first after foundSecond
      foundFirst sameNode.symm
    obtain rfl := Option.some.inj (otherHeld.symm.trans isLease)
    exact absurd otherLive gone.2

/-- A record is bound to a live lease exactly when it names the node of its process. -/
theorem Tidy.bound_iff (tidy : fleet.Tidy) {position : Nat} {member : Member}
    (found : fleet.members[position]? = some member) {lease : Nat}
    (held : member.client.leaseId = some lease) (live : lease ∈ fleet.etcd.live) {key : String}
    {record : Leased MetadataValue} (lookedUp : fleet.etcd.records.lookup key = some record) :
    record.lease = some lease ↔ record.value.nodeId = member.client.nodeId := by
  obtain ⟨owner, mem, -, sameLease, sameNode⟩ := tidy.sourced.owned key record lookedUp
  obtain ⟨place, located⟩ := List.mem_iff_getElem?.mp mem
  constructor
  · intro isBound
    have samePlace := tidy.distinct place position owner member located found lease
      (sameLease.symm.trans isBound) held
    rw [samePlace, found, Option.some_inj] at located
    rw [sameNode, located]
  · intro named
    obtain ⟨other, isBound⟩ := Option.ne_none_iff_exists'.mp (tidy.bound key record lookedUp)
    have otherLive := fleet.etcd.boundLive key record other lookedUp isBound
    have samePlace := tidy.eq_of_live located found (sameNode.symm.trans named)
      (sameLease.symm.trans isBound) otherLive held live
    rw [samePlace, found, Option.some_inj] at located
    rw [sameLease, ← located, held]

/-- A lease of a process that is live after a step was live before. -/
theorem live_of_live_step {action : FleetAction} {lease : Nat}
    (known : lease < fleet.etcd.granted) (live : lease ∈ (next step fleet action).etcd.live) :
    lease ∈ fleet.etcd.live := by
  by_contra gone
  exact (ended_step ⟨known, gone⟩ action).2 live

theorem granted_le_step (fleet : Fleet) (action : FleetAction) :
    fleet.etcd.granted ≤ (next step fleet action).etcd.granted := by
  rw [next, etcd_step]
  cases fleet.change action with
  | none => exact Nat.le_refl _
  | some change => exact fleet.etcd.granted_le_apply change

theorem etcd_of_change {action : FleetAction} {change : MetadataChange}
    (made : fleet.change action = some change) :
    (next step fleet action).etcd = fleet.etcd.apply change := by
  rw [next, etcd_step, made]

/-- A record after a step was put by it, or was there and is kept. -/
theorem lookup_step {action : FleetAction} {key : String} {record : Leased MetadataValue}
    (found : (next step fleet action).etcd.records.lookup key = some record) :
    fleet.change action = some (.put key record) ∨
      fleet.etcd.records.lookup key = some record ∧
        ∀ lease, fleet.change action = some (.finish lease) → record.lease ≠ some lease := by
  rw [next, etcd_step] at found
  cases made : fleet.change action with
  | none =>
      simp only [made] at found
      refine Or.inr ⟨found, ?_⟩
      intro lease same
      cases same
  | some change =>
      simp only [made] at found
      rcases (fleet.etcd.lookup_apply key record change).mp found with ⟨rfl, -⟩ | ⟨old, kept⟩
      · exact Or.inl rfl
      · refine Or.inr ⟨old, ?_⟩
        rintro lease same isBound
        obtain rfl := Option.some.inj same
        exact kept isBound

/-- A process whose lease has ended has the same lease after a step. -/
theorem Tidy.ended_step (tidy : fleet.Tidy) {action : FleetAction} {position : Nat}
    {member after : Member}
    (found : fleet.members[position]? = some member)
    (moves : fleet.Moves action position member after)
    (gone : ∃ lease ∈ member.client.leaseId, fleet.etcd.Ended lease) :
    ∃ lease ∈ after.client.leaseId, (next step fleet action).etcd.Ended lease := by
  obtain ⟨lease, held, ended⟩ := gone
  have begun : member.stage ≠ .connected := by
    intro connected
    rw [tidy.sourced.unleased member (List.mem_of_getElem? found) connected] at held
    cases held
  rw [moves.client.2 begun]
  exact ⟨lease, held, Fleet.ended_step ended action⟩

theorem Tidy.bound_step (tidy : fleet.Tidy) {action : FleetAction} {key : String}
    {record : Leased MetadataValue}
    (found : (next step fleet action).etcd.records.lookup key = some record) :
    record.lease ≠ none := by
  rcases lookup_step found with made | ⟨old, -⟩
  · obtain ⟨position, member, located, -, origin⟩ := change_eq_put made
    have leased := tidy.leased member (List.mem_of_getElem? located)
    rcases origin with ⟨registers, isPut⟩ | ⟨serves, _, _, _, _, isPut⟩
    · obtain ⟨-, rfl⟩ := Change.put.inj isPut
      exact leased (Or.inl registers)
    · obtain ⟨-, rfl⟩ := Change.put.inj isPut
      exact leased (Or.inr serves)
  · exact tidy.bound key record old

theorem Tidy.keyed_step (tidy : fleet.Tidy) (action : FleetAction) :
    Keyed (next step fleet action).etcd := by
  rw [next, etcd_step]
  cases made : fleet.change action with
  | none => exact tidy.keyed
  | some change =>
      obtain ⟨op, rfl⟩ := exists_op_of_change made
      exact tidy.keyed.apply op

/-- The record under a node key names that node. -/
theorem Tidy.nodeId_of_nodeKey (tidy : fleet.Tidy) {nodeId : String}
    {record : Leased MetadataValue}
    (found : fleet.etcd.records.lookup (nodeKey nodeId) = some record) :
    record.value.nodeId = nodeId := by
  rcases tidy.keyed _ record found with
    ⟨info, isNode, sameKey⟩ | ⟨prefixHash, location, -, sameKey⟩
  · rw [isNode]
    exact (nodeKey_injective sameKey).symm
  · exact absurd sameKey (nodeKey_ne_blockKey _ _)

theorem mem_records_iff {etcd : MetadataStore} {key : String} :
    key ∈ etcd.records ↔ ∃ record, etcd.records.lookup key = some record := by
  rw [← AList.lookup_isSome, Option.isSome_iff_exists]

/-- A record that is neither put over nor bound to the lease that ends is kept. -/
theorem lookup_step_of_kept {action : FleetAction} {key : String} {record : Leased MetadataValue}
    (found : fleet.etcd.records.lookup key = some record)
    (notPut : ∀ other, fleet.change action ≠ some (.put key other))
    (notEnded : ∀ lease, fleet.change action = some (.finish lease) → record.lease ≠ some lease) :
    (next step fleet action).etcd.records.lookup key = some record := by
  rw [next, etcd_step]
  cases made : fleet.change action with
  | none => exact found
  | some change =>
      refine (fleet.etcd.lookup_apply key record change).mpr (Or.inr ⟨found, ?_⟩)
      intro displaced
      cases change with
      | grant => exact displaced
      | put other new =>
          obtain ⟨rfl, -⟩ := displaced
          exact notPut new made
      | finish lease => exact notEnded lease made displaced

/-- A process that serves stays registered while its lease is live: nobody else puts its
key, and only the end of its lease takes the record away. -/
theorem Tidy.announced_kept (tidy : fleet.Tidy) {action : FleetAction} {member : Member}
    (mem : member ∈ fleet.members) (serves : member.stage = .serving ∨ member.stage = .stopping)
    {lease : Nat} (held : lease ∈ member.client.leaseId)
    (live : lease ∈ (next step fleet action).etcd.live) :
    ∃ value, (next step fleet action).etcd.records.lookup (nodeKey member.client.nodeId) =
      some ⟨value, some lease⟩ := by
  have liveBefore := live_of_live_step (tidy.known member mem lease held) live
  obtain ⟨value, found⟩ := tidy.announced member mem serves lease held liveBefore
  refine ⟨value, lookup_step_of_kept found ?_ ?_⟩
  · intro other made
    obtain ⟨position, putter, located, accepted, origin⟩ := change_eq_put made
    obtain ⟨place, stands⟩ := List.mem_iff_getElem?.mp mem
    rcases origin with ⟨leased, isPut⟩ | ⟨-, prefixHash, _, _, _, isPut⟩
    · obtain ⟨sameKey, rfl⟩ := Change.put.inj isPut
      obtain ⟨other, otherHeld⟩ := Option.ne_none_iff_exists'.mp
        (tidy.leased putter (List.mem_of_getElem? located) (Or.inl leased))
      have same := tidy.eq_of_live located stands (nodeKey_injective sameKey) otherHeld
        (accepted other otherHeld) held liveBefore
      rw [same, stands, Option.some_inj] at located
      rw [← located] at leased
      rcases serves with serving | stopping
      · exact absurd (leased.symm.trans serving) nofun
      · exact absurd (leased.symm.trans stopping) nofun
    · exact absurd (Change.put.inj isPut).1.symm (nodeKey_ne_blockKey _ _)
  · intro ended made isBound
    obtain rfl : lease = ended := Option.some.inj isBound
    rw [etcd_of_change made] at live
    exact (Store.ended_finish (tidy.known member mem _ held)).2 live

variable {action : FleetAction} (tidy : fleet.Tidy) (orderly : fleet.Orderly action)

include tidy orderly

theorem Tidy.leased_step : ∀ after ∈ (next step fleet action).members,
    after.stage = .leased ∨ after.stage = .serving ∨ after.stage = .stopping →
      after.client.leaseId ≠ none := by
  intro after mem begun
  obtain ⟨position, found⟩ := List.mem_iff_getElem?.mp mem
  rcases getElem?_members_step orderly found with
    ⟨nodeId, nodeAddr, -, -, rfl⟩ | ⟨member, old, moves⟩
  · simp at begun
  · have oldMem := List.mem_of_getElem? old
    cases moves with
    | stays => exact tidy.leased after oldMem begun
    | granted connected isGrant made => exact nofun
    | registers leased made => exact tidy.leased member oldMem (Or.inl leased)
    | stops serving => exact tidy.leased member oldMem (Or.inr (Or.inl serving))
    | exits => simp at begun

theorem Tidy.known_step : ∀ after ∈ (next step fleet action).members,
    ∀ lease ∈ after.client.leaseId, lease < (next step fleet action).etcd.granted := by
  intro after mem lease held
  obtain ⟨position, found⟩ := List.mem_iff_getElem?.mp mem
  rcases getElem?_members_step orderly found with
    ⟨nodeId, nodeAddr, -, -, rfl⟩ | ⟨member, old, moves⟩
  · cases held
  · rcases moves.held held with earlier | ⟨rfl, -, made⟩
    · exact (tidy.known member (List.mem_of_getElem? old) lease earlier).trans_le
        (granted_le_step fleet action)
    · rw [etcd_of_change made]
      exact Nat.lt_succ_self _

theorem Tidy.distinct_step : ∀ (i j : Nat) (first second : Member),
    (next step fleet action).members[i]? = some first →
    (next step fleet action).members[j]? = some second → ∀ lease ∈ first.client.leaseId,
      lease ∈ second.client.leaseId → i = j := by
  intro i j first second foundFirst foundSecond lease heldFirst heldSecond
  -- a lease that is granted now is not the one of another process
  have fresh : ∀ {place : Nat} {member : Member}, fleet.members[place]? = some member →
      fleet.etcd.granted ∉ member.client.leaseId := by
    intro place member found held
    exact Nat.lt_irrefl _ (tidy.known member (List.mem_of_getElem? found) _ held)
  rcases getElem?_members_step orderly foundFirst with
    ⟨nodeId, nodeAddr, -, -, rfl⟩ | ⟨oldFirst, locatedFirst, movesFirst⟩
  · cases heldFirst
  rcases getElem?_members_step orderly foundSecond with
    ⟨nodeId, nodeAddr, -, -, rfl⟩ | ⟨oldSecond, locatedSecond, movesSecond⟩
  · cases heldSecond
  rcases movesFirst.held heldFirst with earlierFirst | ⟨rfl, grantFirst, -⟩
  · rcases movesSecond.held heldSecond with earlierSecond | ⟨rfl, -, -⟩
    · exact tidy.distinct i j _ _ locatedFirst locatedSecond lease earlierFirst earlierSecond
    · exact absurd earlierFirst (fresh locatedFirst)
  · rcases movesSecond.held heldSecond with earlierSecond | ⟨-, grantSecond, -⟩
    · exact absurd earlierSecond (fresh locatedSecond)
    · exact (FleetAction.member.inj (grantFirst.symm.trans grantSecond)).1

theorem Tidy.superseded_step : ∀ (i j : Nat) (first second : Member), i < j →
    (next step fleet action).members[i]? = some first →
    (next step fleet action).members[j]? = some second →
    first.client.nodeId = second.client.nodeId →
      ∃ lease ∈ first.client.leaseId, (next step fleet action).etcd.Ended lease := by
  intro i j first second before foundFirst foundSecond sameNode
  rcases getElem?_members_step orderly foundSecond with
    ⟨nodeId, nodeAddr, rfl, rfl, rfl⟩ | ⟨oldSecond, locatedSecond, movesSecond⟩
  · rcases getElem?_members_step orderly foundFirst with
      ⟨-, -, -, rfl, -⟩ | ⟨oldFirst, locatedFirst, movesFirst⟩
    · exact absurd before (Nat.lt_irrefl _)
    · exact tidy.ended_step locatedFirst movesFirst (orderly oldFirst
        (List.mem_of_getElem? locatedFirst) (movesFirst.client.1.symm.trans sameNode))
  · rcases getElem?_members_step orderly foundFirst with
      ⟨-, -, -, rfl, -⟩ | ⟨oldFirst, locatedFirst, movesFirst⟩
    · have inside := (List.getElem?_eq_some_iff.mp locatedSecond).1
      omega
    · refine tidy.ended_step locatedFirst movesFirst
        (tidy.superseded i j oldFirst oldSecond before locatedFirst locatedSecond ?_)
      rw [← movesFirst.client.1, sameNode, movesSecond.client.1]

theorem Tidy.announced_step : ∀ after ∈ (next step fleet action).members,
    after.stage = .serving ∨ after.stage = .stopping → ∀ lease ∈ after.client.leaseId,
      lease ∈ (next step fleet action).etcd.live →
        ∃ value, (next step fleet action).etcd.records.lookup (nodeKey after.client.nodeId) =
          some ⟨value, some lease⟩ := by
  intro after mem serves lease held live
  obtain ⟨position, found⟩ := List.mem_iff_getElem?.mp mem
  rcases getElem?_members_step orderly found with
    ⟨nodeId, nodeAddr, -, -, rfl⟩ | ⟨member, old, moves⟩
  · cases held
  · have oldMem := List.mem_of_getElem? old
    cases moves with
    | stays => exact tidy.announced_kept oldMem serves held live
    | stops serving => exact tidy.announced_kept oldMem (Or.inl serving) held live
    | granted connected isGrant made => simp at serves
    | exits => simp at serves
    | registers leased made =>
        have liveBefore := live_of_live_step (tidy.known member oldMem lease held) live
        have accepted : ∀ other ∈ member.client.leaseId, other ∈ fleet.etcd.live := by
          intro other otherHeld
          obtain rfl := Option.some.inj (held.symm.trans otherHeld)
          exact liveBefore
        rcases made with refused | made
        · exact absurd accepted refused
        · refine ⟨.node ⟨member.client.nodeId, member.client.nodeAddr⟩, ?_⟩
          rw [etcd_of_change made]
          refine (fleet.etcd.lookup_apply _ _ _).mpr (Or.inl ⟨?_, ?_⟩)
          · rw [MetadataClient.putNode, Option.mem_def.mp held]
          · exact held ▸ accepted

theorem Tidy.step : (next step fleet action).Tidy where
  sourced := tidy.sourced.step action
  leased := tidy.leased_step orderly
  known := tidy.known_step orderly
  distinct := tidy.distinct_step orderly
  superseded := tidy.superseded_step orderly
  bound := fun _ _ => tidy.bound_step
  keyed := tidy.keyed_step action
  announced := tidy.announced_step orderly

end Invariant

/-! ## Refinement -/

/-- The change of the registry a step makes, if it makes one. -/
def op (fleet : Fleet) (action : FleetAction) : Option RegistryOp :=
  match fleet.change action with
  | some (.put _ ⟨.node info, _⟩) => some (.register info.nodeId)
  | some (.put key ⟨.block location, _⟩) => (blockHashOf key).map (.put · location)
  | some (.finish lease) =>
      if lease ∈ fleet.etcd.live then
        (fleet.members.find? fun member => member.client.leaseId = some lease).map
          (.depart ·.client.nodeId)
      else none
  | _ => none

/-- etcd holds the nodes and the locations of the registry. -/
structure Refines (fleet : Fleet) (registry : Registry) : Prop where
  nodes : ∀ nodeId, registry.Registered nodeId ↔ nodeKey nodeId ∈ fleet.etcd.records
  blocks : ∀ prefixHash location, registry.blocks.lookup prefixHash = some location ↔
    ∃ lease, fleet.etcd.records.lookup (blockKey prefixHash) = some ⟨.block location, lease⟩

section Refinement

variable {fleet : Fleet} {registry : Registry} {action : FleetAction}

/-- A step that leaves both as they are. -/
theorem Refines.of_same (refines : fleet.Refines registry) {after : Fleet}
    (same : ∀ key, after.etcd.records.lookup key = fleet.etcd.records.lookup key) :
    after.Refines registry where
  nodes := by
    intro nodeId
    rw [refines.nodes, mem_records_iff, mem_records_iff, same]
  blocks := by
    intro prefixHash location
    simp only [refines.blocks, same]

theorem Refines.register (refines : fleet.Refines registry) (client : MetadataClient)
    (made : fleet.change action = some client.putNode)
    (accepted : fleet.etcd.Accepts ⟨.node ⟨client.nodeId, client.nodeAddr⟩, client.leaseId⟩) :
    (next step fleet action).Refines (registry.apply (.register client.nodeId)) where
  nodes := by
    intro nodeId
    have registered : (registry.apply (.register client.nodeId)).Registered nodeId ↔
        nodeId = client.nodeId ∨ registry.Registered nodeId := AList.mem_insert _
    rw [registered, refines.nodes, etcd_of_change made, MetadataClient.putNode, Store.apply,
      dif_pos accepted, Store.put, AList.mem_insert, nodeKey_injective.eq_iff]
  blocks := by
    intro prefixHash location
    have sameBlocks : (registry.apply (.register client.nodeId)).blocks = registry.blocks := rfl
    rw [sameBlocks, refines.blocks, etcd_of_change made, MetadataClient.putNode, Store.apply,
      dif_pos accepted, Store.put, AList.lookup_insert_ne (nodeKey_ne_blockKey _ _).symm]

theorem Refines.publish (refines : fleet.Refines registry) {prefixHash : PrefixHash}
    {location : BlockLocationMeta} {lease : Option Nat}
    (made : fleet.change action = some (.put (blockKey prefixHash) ⟨.block location, lease⟩))
    (accepted : fleet.etcd.Accepts ⟨.block location, lease⟩)
    (registered : nodeKey location.nodeId ∈ fleet.etcd.records) :
    (next step fleet action).Refines (registry.apply (.put prefixHash location)) := by
  have applied : (next step fleet action).etcd.records =
      fleet.etcd.records.insert (blockKey prefixHash) ⟨.block location, lease⟩ := by
    rw [etcd_of_change made, Store.apply, dif_pos accepted, Store.put]
  rw [Registry.apply, if_pos ((refines.nodes _).mpr registered)]
  constructor
  · intro nodeId
    rw [applied, AList.mem_insert, or_iff_right (nodeKey_ne_blockKey _ _)]
    exact refines.nodes nodeId
  · intro other found
    rw [applied]
    by_cases same : other = prefixHash
    · subst same
      simp only [AList.lookup_insert, Option.some.injEq, Leased.mk.injEq,
        MetadataValue.block.injEq, exists_and_left, exists_eq', and_true]
    · rw [AList.lookup_insert_ne same,
        AList.lookup_insert_ne (blockKey_injective.ne same)]
      exact refines.blocks other found

/-- The end of a lease that no record is bound to. -/
theorem Refines.of_unbound (refines : fleet.Refines registry) {lease : Nat}
    (made : fleet.change action = some (.finish lease))
    (unbound : ∀ key record, fleet.etcd.records.lookup key = some record →
      record.lease ≠ some lease) :
    (next step fleet action).Refines registry := by
  refine refines.of_same fun key => Option.ext fun record => ?_
  rw [etcd_of_change made, fleet.etcd.lookup_apply]
  simp only [reduceCtorEq, false_and, false_or, Store.Displaces, and_iff_left_iff_imp]
  exact unbound key record

/-- The end of a live lease is the departure of the node of its process. -/
theorem Refines.depart (refines : fleet.Refines registry) (tidy : fleet.Tidy) {lease : Nat}
    (made : fleet.change action = some (.finish lease)) (live : lease ∈ fleet.etcd.live)
    {position : Nat} {member : Member} (found : fleet.members[position]? = some member)
    (held : member.client.leaseId = some lease) :
    (next step fleet action).Refines (registry.apply (.depart member.client.nodeId)) := by
  have after : ∀ key record, (next step fleet action).etcd.records.lookup key = some record ↔
      fleet.etcd.records.lookup key = some record ∧
        record.value.nodeId ≠ member.client.nodeId := by
    intro key record
    rw [etcd_of_change made, fleet.etcd.lookup_apply]
    simp only [reduceCtorEq, false_and, false_or, Store.Displaces]
    exact and_congr_right fun lookedUp => not_congr (tidy.bound_iff found held live lookedUp)
  constructor
  · intro nodeId
    have remains : nodeKey nodeId ∈ (next step fleet action).etcd.records ↔
        nodeId ≠ member.client.nodeId ∧ nodeKey nodeId ∈ fleet.etcd.records := by
      simp only [mem_records_iff, after]
      constructor
      · rintro ⟨record, old, otherNode⟩
        exact ⟨tidy.nodeId_of_nodeKey old ▸ otherNode, record, old⟩
      · rintro ⟨otherNode, record, old⟩
        exact ⟨record, old, (tidy.nodeId_of_nodeKey old).symm ▸ otherNode⟩
    rw [remains, ← refines.nodes]
    exact AList.mem_erase
  · intro prefixHash location
    simp only [Registry.apply, lookup_filterMapValues, after, Option.bind_eq_some_iff,
      Registry.unlessOf, Option.ite_none_left_eq_some, Option.some.injEq, exists_and_right,
      ← refines.blocks]
    constructor
    · rintro ⟨old, lookedUp, otherNode, rfl⟩
      exact ⟨lookedUp, otherNode⟩
    · rintro ⟨lookedUp, otherNode⟩
      exact ⟨location, lookedUp, otherNode, rfl⟩

theorem Refines.step (refines : fleet.Refines registry) (tidy : fleet.Tidy) :
    (next step fleet action).Refines
      (match fleet.op action with
        | none => registry
        | some op => registry.apply op) := by
  cases made : fleet.change action with
  | none =>
      simp only [op, made]
      exact refines.of_same fun key => by rw [next, etcd_step, made]
  | some change =>
      cases change with
      | grant =>
          simp only [op, made]
          exact refines.of_same fun key => by rw [etcd_of_change made]; rfl
      | put key record =>
          obtain ⟨position, member, located, accepted, origin⟩ := change_eq_put made
          have mem := List.mem_of_getElem? located
          rcases origin with ⟨-, isPut⟩ | ⟨serves, prefixHash, offset, size, generation, isPut⟩
          · obtain ⟨rfl, rfl⟩ := Change.put.inj isPut
            simp only [op, made]
            exact refines.register member.client made accepted
          · obtain ⟨rfl, rfl⟩ := Change.put.inj isPut
            obtain ⟨lease, held⟩ := Option.ne_none_iff_exists'.mp
              (tidy.leased member mem (Or.inr serves))
            obtain ⟨value, registered⟩ := tidy.announced member mem serves lease held
              (accepted lease held)
            simp only [op, made, blockHashOf_blockKey, Option.map_some]
            exact refines.publish made accepted (mem_records_iff.mpr ⟨_, registered⟩)
      | finish lease =>
          simp only [op, made]
          split_ifs with live
          · cases holder : fleet.members.find? fun member => member.client.leaseId = some lease with
            | none =>
                -- a lease without a process has no records
                refine refines.of_unbound made fun key record lookedUp isBound => ?_
                obtain ⟨owner, mem, -, sameLease, -⟩ := tidy.sourced.owned key record lookedUp
                have noHolder := List.find?_eq_none.mp holder owner mem
                simp [← sameLease, isBound] at noHolder
            | some member =>
                obtain ⟨position, located⟩ :=
                  List.mem_iff_getElem?.mp (List.mem_of_find?_eq_some holder)
                have holds := List.find?_some holder
                exact refines.depart tidy made live located (of_decide_eq_true holds)
          · refine refines.of_unbound made fun key record lookedUp isBound => ?_
            exact live (fleet.etcd.boundLive key record lease lookedUp isBound)

end Refinement

/-- The changes of the registry along a run. -/
def ops (fleet : Fleet) (actions : List FleetAction) : List RegistryOp :=
  (outputs (fun fleet action => (next step fleet action, fleet.op action)) fleet
    actions).reduceOption

theorem run_refines {fleet : Fleet} {registry : Registry} (tidy : fleet.Tidy)
    (refines : fleet.Refines registry) {actions : List FleetAction}
    (orderly : Allows (next step) Orderly fleet actions) :
    (run (next step) fleet actions).Tidy ∧
      (run (next step) fleet actions).Refines (run Registry.apply registry (fleet.ops actions)) := by
  induction actions generalizing fleet registry with
  | nil => exact ⟨tidy, refines⟩
  | cons action rest inductionHypothesis =>
      have stepped := @Refines.step fleet registry action refines tidy
      have later := inductionHypothesis (tidy.step orderly.1) stepped orderly.2
      rw [run_cons]
      refine ⟨later.1, ?_⟩
      have split : fleet.ops (action :: rest) =
          (fleet.op action).toList ++ (next step fleet action).ops rest := by
        simp only [ops, outputs]
        cases fleet.op action <;> rfl
      rw [split, run_append]
      cases made : fleet.op action with
      | none =>
          simp only [made] at later
          exact later.2
      | some op =>
          simp only [made] at later
          exact later.2

theorem new_refines : new.Refines Registry.new :=
  ⟨fun _ => iff_of_false nofun nofun, fun _ _ => iff_of_false nofun nofun⟩

theorem listed_iff {fleet : Fleet} (tidy : fleet.Tidy) (nodeId : String) :
    (∃ info ∈ listNodes fleet.etcd, info.nodeId = nodeId) ↔
      nodeKey nodeId ∈ fleet.etcd.records := by
  simp only [mem_records_iff, mem_listNodes]
  constructor
  · rintro ⟨info, ⟨key, lease, -, found⟩, rfl⟩
    rcases tidy.keyed key _ found with ⟨same, isNode, rfl⟩ | ⟨prefixHash, location, isBlock, -⟩
    · obtain rfl := MetadataValue.node.inj isNode
      exact ⟨_, found⟩
    · cases isBlock
  · rintro ⟨⟨value, lease⟩, found⟩
    rcases tidy.keyed _ _ found with ⟨info, rfl, sameKey⟩ | ⟨prefixHash, location, -, sameKey⟩
    · refine ⟨info, ⟨nodeKey nodeId, lease, ?_, found⟩, (nodeKey_injective sameKey).symm⟩
      rw [nodeKey, String.toList_append]
      exact List.prefix_append _ _
    · exact absurd sameKey (nodeKey_ne_blockKey _ _)

/-- Along any orderly run, `list_nodes` and `lookup_block` over the leases of etcd answer
what the registry holds after the changes of the run: registrations, publications and
departures. -/
theorem leases_refine_etcd {actions : List FleetAction}
    (orderly : Allows (next step) Orderly new actions) :
    let fleet := run (next step) new actions
    let registry := run Registry.apply Registry.new (new.ops actions)
    (∀ nodeId, (∃ info ∈ listNodes fleet.etcd, info.nodeId = nodeId) ↔ registry.Registered nodeId) ∧
      ∀ prefixHash, lookupBlock fleet.etcd prefixHash =
        (registry.blocks.lookup prefixHash).map BlockLocationMeta.info := by
  intro fleet registry
  obtain ⟨tidy, refines⟩ := run_refines new_tidy new_refines orderly
  refine ⟨fun nodeId => (listed_iff tidy nodeId).trans (refines.nodes nodeId).symm, ?_⟩
  intro prefixHash
  refine Option.ext fun info => ?_
  simp only [lookupBlock_eq_some, Option.map_eq_some_iff]
  constructor
  · rintro ⟨location, lease, isInfo, found⟩
    exact ⟨location, (refines.blocks prefixHash location).mpr ⟨lease, found⟩, isInfo⟩
  · rintro ⟨location, found, isInfo⟩
    obtain ⟨lease, lookedUp⟩ := (refines.blocks prefixHash location).mp found
    exact ⟨location, lease, isInfo, lookedUp⟩

/-- Two nodes publish under one prefix hash; the first one's lease runs out, and it comes
back under a new lease. -/
theorem leases_refine_etcd_of_restart :
    let up (position : Nat) (nodeId : String) : List FleetAction := [.start nodeId "addr",
      .member position (.grant .answered), .member position (.putNode .answered),
      .member position (.publish (.ofByte 1) 0 64 1 .answered)]
    let actions := up 0 "a" ++ up 1 "b" ++ [.expire 0] ++ up 2 "a"
    Allows (next step) Orderly new actions ∧ (new.ops actions).length = 7 ∧
      lookupBlock (run (next step) new actions).etcd (.ofByte 1) =
        ((run Registry.apply Registry.new (new.ops actions)).blocks.lookup (.ofByte 1)).map
          BlockLocationMeta.info := by
  intro up actions
  have orderly : Allows (next step) Orderly new actions := by decide +kernel
  exact ⟨orderly, by decide +kernel, (leases_refine_etcd orderly).2 _⟩

end Fleet

end CmxRdma.Agent
