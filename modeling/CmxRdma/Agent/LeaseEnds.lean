import CmxRdma.Agent.Leases

/-!
Contract: what is left of a node in etcd once the leases of its processes have ended.

Owns: whose record each record is, and that a node whose leases have ended stays away
from etcd whatever its processes go on to do.

Does not own: locations published without a lease, which nothing but another publication
takes away; see `Leases`.
-/

namespace CmxRdma.Agent

open CmxRdma.Lib.LeasedStore
open CmxRdma.Lib.Transition

namespace Fleet

/-! ## Processes from step to step -/

/-- Only the first call of `register_node` sets a lease id, and no process goes back. -/
theorem goesOn_of_not_connected {member : Member} (begun : member.stage ≠ .connected)
    (etcd : MetadataStore) (result : Except EtcdError Unit) (action : MemberAction) :
    (member.goesOn etcd result action).client = member.client ∧
      (member.goesOn etcd result action).stage ≠ .connected := by
  cases action with
  | grant fate =>
      have unchanged : member.goesOn etcd result (.grant fate) = member := if_neg begun
      rw [unchanged]
      exact ⟨rfl, begun⟩
  | putNode fate =>
      simp only [Member.goesOn]
      split_ifs
      · exact ⟨rfl, nofun⟩
      · exact ⟨rfl, begun⟩
  | publish prefixHash offset size generation fate => exact ⟨rfl, begun⟩
  | revoke fate =>
      simp only [Member.goesOn]
      split_ifs
      · exact ⟨rfl, nofun⟩
      · exact ⟨rfl, begun⟩
  | exit => exact ⟨rfl, nofun⟩

/-- A process of which `main` is still at its first call has done nothing yet. -/
theorem eq_of_goesOn_connected {member : Member} {etcd : MetadataStore}
    {result : Except EtcdError Unit} {action : MemberAction}
    (still : (member.goesOn etcd result action).stage = .connected) :
    member.goesOn etcd result action = member := by
  cases action with
  | grant fate =>
      simp only [Member.goesOn] at still ⊢
      split_ifs at still ⊢
      · cases result <;> cases still
      · rfl
  | putNode fate =>
      simp only [Member.goesOn] at still ⊢
      split_ifs at still ⊢
      rfl
  | publish prefixHash offset size generation fate => rfl
  | revoke fate =>
      simp only [Member.goesOn] at still ⊢
      split_ifs at still ⊢
      rfl
  | exit => cases still

theorem goesOn_nodeId (member : Member) (etcd : MetadataStore) (result : Except EtcdError Unit)
    (action : MemberAction) :
    (member.goesOn etcd result action).client.nodeId = member.client.nodeId := by
  by_cases begun : member.stage = .connected
  · cases action with
    | grant fate =>
        simp only [Member.goesOn, if_pos begun]
        cases result <;> rfl
    | exit => rfl
    | _ => simp [Member.goesOn, begun]
  · rw [(goesOn_of_not_connected begun etcd result action).1]

/-- The processes after a step: one that starts, and those before, one of which may have
gone on. -/
theorem members_step (fleet : Fleet) (action : FleetAction) :
    (∃ nodeId nodeAddr, action = .start nodeId nodeAddr ∧ (next step fleet action).members =
        fleet.members ++ [⟨.connect nodeId nodeAddr, .connected⟩]) ∨
      (next step fleet action).members = fleet.members ∨
      ∃ position member result own, action = .member position own ∧
        fleet.members[position]? = some member ∧
        (next step fleet action).members =
          fleet.members.set position (member.goesOn fleet.etcd result own) := by
  cases action with
  | start nodeId nodeAddr => exact Or.inl ⟨nodeId, nodeAddr, rfl, rfl⟩
  | expire lease => exact Or.inr (Or.inl rfl)
  | member position own =>
      refine Or.inr ?_
      cases found : fleet.members[position]? with
      | none =>
          left
          simp only [next, step, found]
      | some member =>
          right
          cases asked : member.asks own with
          | none =>
              refine ⟨position, member, .ok (), own, rfl, found, ?_⟩
              simp only [next, step, found, asked]
          | some request =>
              refine ⟨position, member, (call fleet.etcd request.1 request.2).2, own, rfl, found, ?_⟩
              simp only [next, step, found, asked]

theorem mem_members_step {fleet : Fleet} {action : FleetAction} {after : Member}
    (mem : after ∈ (next step fleet action).members) :
    (∃ nodeId nodeAddr, action = .start nodeId nodeAddr ∧
        after = ⟨.connect nodeId nodeAddr, .connected⟩) ∨
      ∃ member ∈ fleet.members, after = member ∨
        ∃ result own, after = member.goesOn fleet.etcd result own := by
  rcases members_step fleet action with
    ⟨nodeId, nodeAddr, started, grown⟩ | same | ⟨position, member, result, own, -, found, replaced⟩
  · rw [grown, List.mem_append, List.mem_singleton] at mem
    rcases mem with old | new
    · exact Or.inr ⟨after, old, Or.inl rfl⟩
    · exact Or.inl ⟨nodeId, nodeAddr, started, new⟩
  · exact Or.inr ⟨after, same ▸ mem, Or.inl rfl⟩
  · rw [replaced] at mem
    rcases List.mem_or_eq_of_mem_set mem with old | new
    · exact Or.inr ⟨after, old, Or.inl rfl⟩
    · exact Or.inr ⟨member, List.mem_of_getElem? found, Or.inr ⟨result, own, new⟩⟩

theorem exists_mem_members_step {fleet : Fleet} {member : Member} (mem : member ∈ fleet.members)
    (begun : member.stage ≠ .connected) (action : FleetAction) :
    ∃ after ∈ (next step fleet action).members, after.client = member.client ∧
      after.stage ≠ .connected := by
  rcases members_step fleet action with
    ⟨nodeId, nodeAddr, -, grown⟩ | same | ⟨position, moved, result, own, -, found, replaced⟩
  · exact ⟨member, grown ▸ List.mem_append_left _ mem, rfl, begun⟩
  · exact ⟨member, same ▸ mem, rfl, begun⟩
  · obtain ⟨place, located⟩ := List.mem_iff_getElem?.mp mem
    rw [replaced]
    by_cases here : position = place
    · rw [here, located, Option.some_inj] at found
      subst found
      refine ⟨member.goesOn fleet.etcd result own, ?_, goesOn_of_not_connected begun _ _ _⟩
      apply List.mem_of_getElem? (i := position)
      rw [List.getElem?_set_self']
      simp [here, located]
    · refine ⟨member, List.mem_of_getElem? (i := place) ?_, rfl, begun⟩
      rw [List.getElem?_set_ne here]
      exact located

/-! ## Whose record a record is -/

/-- Who a put comes from: a process that registers, or one that publishes. -/
theorem change_eq_put {fleet : Fleet} {action : FleetAction} {key : String}
    {record : Leased MetadataValue} (made : fleet.change action = some (.put key record)) :
    ∃ (position : Nat) (member : Member), fleet.members[position]? = some member ∧
      fleet.etcd.Accepts record ∧
      (member.stage = .leased ∧ member.client.putNode = .put key record ∨
        (member.stage = .serving ∨ member.stage = .stopping) ∧
          ∃ prefixHash offset size generation,
            member.client.publishBlock prefixHash offset size generation = .put key record) := by
  cases action with
  | start nodeId nodeAddr => cases made
  | expire lease => cases made
  | member position action =>
      obtain ⟨member, fate, found, asked, -, taken⟩ := change_member.mp made
      refine ⟨position, member, found, not_not.mp taken, ?_⟩
      cases action with
      | exit => cases asked
      | grant fate =>
          simp only [Member.asks, Option.ite_none_right_eq_some] at asked
          cases asked.2
      | revoke fate => simp [Member.asks, MetadataClient.revokeLease] at asked
      | putNode fate =>
          simp only [Member.asks, Option.ite_none_right_eq_some, Option.some.injEq,
            Prod.mk.injEq] at asked
          exact Or.inl ⟨asked.1, asked.2.1⟩
      | publish prefixHash offset size generation fate =>
          simp only [Member.asks, Option.ite_none_right_eq_some, Option.some.injEq,
            Prod.mk.injEq] at asked
          exact Or.inr ⟨asked.1, prefixHash, offset, size, generation, asked.2.1⟩

/-- Every change a process asks for is one that watches are told of. -/
theorem exists_op_of_change {fleet : Fleet} {action : FleetAction} {change : MetadataChange}
    (made : fleet.change action = some change) : ∃ op : EtcdOp, op.change = change := by
  cases change with
  | grant => exact ⟨.grant, rfl⟩
  | finish lease => exact ⟨.finish lease, rfl⟩
  | put key record =>
      obtain ⟨position, member, -, -,
        ⟨-, isPut⟩ | ⟨-, prefixHash, offset, size, generation, isPut⟩⟩ :=
        change_eq_put made
      · exact ⟨.putNode ⟨member.client.nodeId, member.client.nodeAddr⟩ member.client.leaseId, isPut⟩
      · exact ⟨.put prefixHash (member.client.location offset size generation)
          member.client.leaseId, isPut⟩

/-- Whatever the processes do and however their calls fail, the records of etcd are those
of an `Etcd` after some changes: the steps of `Cluster` cover it. -/
theorem exists_ops_run (actions : List FleetAction) :
    ∃ ops : List EtcdOp,
      (run (next step) new actions).etcd = (run Etcd.apply Etcd.new ops).store := by
  refine @run_invariant _ _ (next step)
    (fun fleet => ∃ ops, fleet.etcd = (run Etcd.apply Etcd.new ops).store) ?_ new ⟨[], rfl⟩ actions
  rintro fleet action ⟨ops, same⟩
  rw [next, etcd_step]
  cases made : fleet.change action with
  | none => exact ⟨ops, same⟩
  | some change =>
      obtain ⟨op, rfl⟩ := exists_op_of_change made
      refine ⟨ops ++ [op], ?_⟩
      rw [run_append, run_cons, run_nil, Etcd.store_apply, ← same]

theorem owner_of_put {fleet : Fleet} {action : FleetAction} {key : String}
    {record : Leased MetadataValue} (made : fleet.change action = some (.put key record)) :
    ∃ member ∈ fleet.members, member.stage ≠ .connected ∧
      record.lease = member.client.leaseId ∧ record.value.nodeId = member.client.nodeId := by
  obtain ⟨position, member, found, -, origin⟩ := change_eq_put made
  refine ⟨member, List.mem_of_getElem? found, ?_⟩
  rcases origin with ⟨leased, isPut⟩ | ⟨serves, prefixHash, offset, size, generation, isPut⟩
  · obtain ⟨-, rfl⟩ := Change.put.inj isPut
    exact ⟨by simp [leased], rfl, rfl⟩
  · obtain ⟨-, rfl⟩ := Change.put.inj isPut
    refine ⟨?_, rfl, rfl⟩
    rcases serves with serving | stopping
    · simp [serving]
    · simp [stopping]

/-- Every record is one of a process of the node it names, under the lease of that
process, and no process has a lease before it asks for one. -/
structure Sourced (fleet : Fleet) : Prop where
  unleased : ∀ member ∈ fleet.members, member.stage = .connected → member.client.leaseId = none
  owned : ∀ key record, fleet.etcd.records.lookup key = some record →
    ∃ member ∈ fleet.members, member.stage ≠ .connected ∧
      record.lease = member.client.leaseId ∧ record.value.nodeId = member.client.nodeId

theorem Sourced.step {fleet : Fleet} (sourced : fleet.Sourced) (action : FleetAction) :
    (next step fleet action).Sourced where
  unleased := by
    intro after mem still
    rcases mem_members_step mem with
      ⟨nodeId, nodeAddr, -, rfl⟩ | ⟨member, old, rfl | ⟨result, own, rfl⟩⟩
    · rfl
    · exact sourced.unleased after old still
    · have unchanged := eq_of_goesOn_connected still
      rw [unchanged] at still ⊢
      exact sourced.unleased member old still
  owned := by
    intro key record found
    have owner : ∃ member ∈ fleet.members, member.stage ≠ .connected ∧
        record.lease = member.client.leaseId ∧ record.value.nodeId = member.client.nodeId := by
      rw [next, etcd_step] at found
      cases made : fleet.change action with
      | none =>
          simp only [made] at found
          exact sourced.owned key record found
      | some change =>
          simp only [made] at found
          rcases (fleet.etcd.lookup_apply key record change).mp found with
            ⟨rfl, -⟩ | ⟨old, -⟩
          · exact owner_of_put made
          · exact sourced.owned key record old
    obtain ⟨member, mem, begun, sameLease, sameNode⟩ := owner
    obtain ⟨after, memAfter, sameClient, begunAfter⟩ := exists_mem_members_step mem begun action
    exact ⟨after, memAfter, begunAfter, by rw [sameClient, sameLease], by rw [sameClient, sameNode]⟩

theorem run_sourced (actions : List FleetAction) : (run (next step) new actions).Sourced :=
  @run_invariant _ _ (next step) Sourced (fun _ action sourced => sourced.step action) new
    ⟨nofun, nofun⟩ actions

/-! ## Departed nodes -/

/-- Every process of the node was granted a lease, and the lease has ended. -/
def Departed (fleet : Fleet) (nodeId : String) : Prop :=
  ∀ member ∈ fleet.members, member.client.nodeId = nodeId →
    ∃ lease ∈ member.client.leaseId, fleet.etcd.Ended lease

instance (fleet : Fleet) (nodeId : String) : Decidable (fleet.Departed nodeId) :=
  inferInstanceAs (Decidable (∀ member ∈ fleet.members, member.client.nodeId = nodeId →
    ∃ lease ∈ member.client.leaseId, fleet.etcd.Ended lease))

theorem ended_step {fleet : Fleet} {lease : Nat} (ended : fleet.etcd.Ended lease)
    (action : FleetAction) : (next step fleet action).etcd.Ended lease := by
  rw [next, etcd_step]
  cases fleet.change action with
  | none => exact ended
  | some change => exact ended.apply change

theorem Departed.step {fleet : Fleet} {nodeId : String} (sourced : fleet.Sourced)
    (departed : fleet.Departed nodeId) {action : FleetAction}
    (noRestart : ∀ nodeAddr, action ≠ .start nodeId nodeAddr) :
    (next step fleet action).Departed nodeId := by
  intro after mem named
  rcases mem_members_step mem with
    ⟨started, nodeAddr, rfl, rfl⟩ | ⟨member, old, rfl | ⟨result, own, rfl⟩⟩
  · exact absurd (congrArg (FleetAction.start · nodeAddr) named) (noRestart nodeAddr)
  · obtain ⟨lease, held, ended⟩ := departed after old named
    exact ⟨lease, held, ended_step ended _⟩
  · rw [goesOn_nodeId] at named
    obtain ⟨lease, held, ended⟩ := departed member old named
    have begun : member.stage ≠ .connected := by
      intro connected
      rw [sourced.unleased member old connected] at held
      cases held
    rw [(goesOn_of_not_connected begun fleet.etcd result own).1]
    exact ⟨lease, held, ended_step ended _⟩

theorem mem_listNodes {etcd : MetadataStore} {info : NodeInfo} :
    info ∈ listNodes etcd ↔ ∃ key lease, nodeDirectory.toList <+: key.toList ∧
      etcd.records.lookup key = some ⟨.node info, lease⟩ := by
  simp only [listNodes, List.mem_filterMap, List.mem_mergeSort, List.mem_filter,
    List.isPrefixOf_iff_prefix]
  constructor
  · rintro ⟨⟨key, ⟨value, lease⟩⟩, ⟨stored, inDirectory⟩, read⟩
    cases value with
    | node other =>
        obtain rfl := Option.some.inj read
        exact ⟨key, lease, inDirectory, AList.mem_lookup_iff.mpr stored⟩
    | block location => cases read
  · rintro ⟨key, lease, inDirectory, found⟩
    exact ⟨⟨key, _⟩, ⟨AList.mem_lookup_iff.mp found, inDirectory⟩, rfl⟩

/-- No call of a node that has departed succeeds or changes etcd. -/
theorem Departed.step_member {fleet : Fleet} {nodeId : String} (sourced : fleet.Sourced)
    (departed : fleet.Departed nodeId) {position : Nat} {member : Member}
    (found : fleet.members[position]? = some member) (named : member.client.nodeId = nodeId)
    (action : MemberAction) :
    (fleet.step (.member position action)).1.etcd = fleet.etcd ∧
      (fleet.step (.member position action)).2 ≠ some (.ok ()) := by
  have mem := List.mem_of_getElem? found
  obtain ⟨lease, held, ended⟩ := departed member mem named
  have begun : member.stage ≠ .connected := by
    intro connected
    rw [sourced.unleased member mem connected] at held
    cases held
  have refused : ∀ value, ¬ fleet.etcd.Accepts ⟨value, member.client.leaseId⟩ := fun value =>
    ended.not_accepts held
  cases asked : member.asks action with
  | none => simp only [Fleet.step, found, asked, ne_eq, reduceCtorEq, not_false_iff, and_self]
  | some request =>
      obtain ⟨change, fate⟩ := request
      have refuses : Refuses fleet.etcd change := by
        cases action with
        | exit => cases asked
        | grant fate => simp [Member.asks, begun] at asked
        | putNode fate =>
            simp only [Member.asks, Option.ite_none_right_eq_some, Option.some.injEq,
              Prod.mk.injEq] at asked
            obtain ⟨-, rfl, -⟩ := asked
            exact refused _
        | publish prefixHash offset size generation fate =>
            simp only [Member.asks, Option.ite_none_right_eq_some, Option.some.injEq,
              Prod.mk.injEq] at asked
            obtain ⟨-, rfl, -⟩ := asked
            exact refused _
        | revoke fate =>
            rw [Option.mem_def] at held
            simp only [Member.asks, MetadataClient.revokeLease, held, Option.map_some,
              Option.ite_none_right_eq_some, Option.some.injEq, Prod.mk.injEq] at asked
            obtain ⟨-, rfl, -⟩ := asked
            exact ended.2
      simp only [Fleet.step, found, asked]
      cases fate <;> simp [call, refuses]

/-- A node of which every process was granted a lease that has ended is gone for good:
until another process starts under its id, no interleaving brings a registration or a
location of it back into etcd, and every call its processes still make fails. -/
theorem departed_node_leaves_nothing {actions : List FleetAction} {nodeId : String}
    (departed : (run (next step) new actions).Departed nodeId) {continuation : List FleetAction}
    (noRestart : ∀ nodeAddr, .start nodeId nodeAddr ∉ continuation) :
    let later := run (next step) new (actions ++ continuation)
    (∀ info ∈ listNodes later.etcd, info.nodeId ≠ nodeId) ∧
      (∀ prefixHash info, lookupBlock later.etcd prefixHash = some info → info.nodeId ≠ nodeId) ∧
      ∀ position member, later.members[position]? = some member →
        member.client.nodeId = nodeId → ∀ action,
          (later.step (.member position action)).1.etcd = later.etcd ∧
            (later.step (.member position action)).2 ≠ some (.ok ()) := by
  intro later
  have sourced : later.Sourced := run_sourced _
  have stillDeparted : later.Departed nodeId := by
    rw [show later = run (next step) (run (next step) new actions) continuation from run_append ..]
    refine (@run_invariant_of_mem _ _ (next step)
      (fun fleet => fleet.Sourced ∧ fleet.Departed nodeId) continuation ?_ _
      ⟨run_sourced actions, departed⟩).2
    intro fleet action member known
    exact ⟨known.1.step action, known.2.step known.1 fun nodeAddr restart =>
      noRestart nodeAddr (restart ▸ member)⟩
  have nothing : ∀ key record, later.etcd.records.lookup key = some record →
      record.value.nodeId ≠ nodeId := by
    intro key record found named
    obtain ⟨member, mem, -, sameLease, sameNode⟩ := sourced.owned key record found
    obtain ⟨lease, held, ended⟩ := stillDeparted member mem (sameNode.symm.trans named)
    exact ended.not_bound found (sameLease.trans held)
  refine ⟨?_, ?_, fun position member found named action =>
    stillDeparted.step_member sourced found named action⟩
  · intro info listed
    obtain ⟨key, lease, -, found⟩ := mem_listNodes.mp listed
    exact nothing _ _ found
  · intro prefixHash info found
    obtain ⟨location, lease, rfl, lookedUp⟩ := lookupBlock_eq_some.mp found
    exact nothing _ _ lookedUp

/-- A registered process publishes and revokes its lease; what it publishes after that
is refused. -/
theorem revoked_node_leaves_nothing :
    let registered : List FleetAction := [.start "a" "a:1", .member 0 (.grant .answered),
      .member 0 (.putNode .answered), .member 0 (.publish (.ofByte 1) 0 64 1 .answered)]
    let revoked := registered ++ [.member 0 (.revoke .answered)]
    let later := run (next step) new
      (revoked ++ [.member 0 (.publish (.ofByte 2) 64 64 1 .unanswered)])
    listNodes (run (next step) new registered).etcd = [⟨"a", "a:1"⟩] ∧
      (run (next step) new revoked).Departed "a" ∧
      ∀ prefixHash info, lookupBlock later.etcd prefixHash = some info → info.nodeId ≠ "a" := by
  intro registered revoked later
  have departed : (run (next step) new revoked).Departed "a" := by decide +kernel
  exact ⟨by decide +kernel, departed,
    (departed_node_leaves_nothing departed (by simp)).2.1⟩

end Fleet

end CmxRdma.Agent
