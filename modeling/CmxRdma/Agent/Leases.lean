import CmxRdma.Agent.Metadata

/-!
Contract: the calls of `MetadataClient` in `metadata.rs`, in the order in which `main`
makes them.

Owns: the calls with every way they can fail; processes that connect, register, serve,
revoke their lease and exit; leases that run out at any time; and which publication
`lookup_block` finds.

Does not own: the watches; see `Cluster`. What a node leaves behind is in `LeaseEnds`.
Once a process serves, nothing sets its lease id, so reading the id and the put of
`publish_block` are one step. The keepalive only decides when a lease runs out.
-/

namespace CmxRdma.Agent

open CmxRdma.Lib.LeasedStore
open CmxRdma.Lib.Transition

/-! ## Calls -/

/-- What becomes of a call. One that fails on the way may still have been carried out. -/
inductive CallFate where
  | answered
  | failed
  | unanswered
deriving DecidableEq

inductive EtcdError where
  | leaseNotFound
  | transport
deriving DecidableEq

/-- etcd refuses a put or a revocation under a lease it does not have. -/
def Refuses (etcd : MetadataStore) : MetadataChange → Prop
  | .grant => False
  | .put _ record => ¬ etcd.Accepts record
  | .finish lease => lease ∉ etcd.live

instance (etcd : MetadataStore) (change : MetadataChange) : Decidable (Refuses etcd change) :=
  match change with
  | .grant => inferInstanceAs (Decidable False)
  | .put _ _ => inferInstanceAs (Decidable (¬ _))
  | .finish _ => inferInstanceAs (Decidable (¬ _))

def call (etcd : MetadataStore) (change : MetadataChange) :
    CallFate → MetadataStore × Except EtcdError Unit
  | .answered =>
      if Refuses etcd change then (etcd, .error .leaseNotFound)
      else (etcd.apply change, .ok ())
  | .failed => (etcd, .error .transport)
  | .unanswered =>
      if Refuses etcd change then (etcd, .error .transport)
      else (etcd.apply change, .error .transport)

def lookupBlock (etcd : MetadataStore) (prefixHash : PrefixHash) : Option RemoteBlockInfo :=
  match etcd.records.lookup (blockKey prefixHash) with
  | some ⟨.block location, _⟩ => some location.info
  | _ => none

/-- The registered nodes by key, as etcd returns a directory. -/
def listNodes (etcd : MetadataStore) : List NodeInfo :=
  let inDirectory := etcd.records.entries.filter fun entry =>
    nodeDirectory.toList.isPrefixOf entry.1.toList
  (inDirectory.mergeSort fun left right => decide (left.1 ≤ right.1)).filterMap fun entry =>
    match entry.2.value with
    | .node info => some info
    | .block _ => none

/-! ## Processes -/

/-- How far `main` has come. It serves whether or not the node could be registered; at a
signal it revokes the lease and finishes the requests it has. -/
inductive Stage where
  | connected
  | leased
  | serving
  | stopping
  | exited
deriving DecidableEq

structure Member where
  client : MetadataClient
  stage : Stage
deriving DecidableEq

inductive MemberAction where
  | grant (fate : CallFate)
  | putNode (fate : CallFate)
  | publish (prefixHash : PrefixHash) (offset size generation : UInt64) (fate : CallFate)
  | revoke (fate : CallFate)
  | exit
deriving DecidableEq

/-- The change a process asks etcd for, with the fate of the call. -/
def Member.asks (member : Member) : MemberAction → Option (MetadataChange × CallFate)
  | .grant fate => if member.stage = .connected then some (.grant, fate) else none
  | .putNode fate => if member.stage = .leased then some (member.client.putNode, fate) else none
  | .publish prefixHash offset size generation fate =>
      if member.stage = .serving ∨ member.stage = .stopping then
        some (member.client.publishBlock prefixHash offset size generation, fate)
      else none
  | .revoke fate =>
      if member.stage = .serving then member.client.revokeLease.map (·, fate) else none
  | .exit => none

/-- What becomes of a process, from the store its call found and how the call ended. -/
def Member.goesOn (member : Member) (etcd : MetadataStore) (result : Except EtcdError Unit) :
    MemberAction → Member
  | .grant _ =>
      if member.stage = .connected then
        match result with
        | .ok () => ⟨member.client.setLease etcd, .leased⟩
        | .error _ => ⟨member.client, .serving⟩
      else member
  | .putNode _ => if member.stage = .leased then ⟨member.client, .serving⟩ else member
  | .publish _ _ _ _ _ => member
  | .revoke _ => if member.stage = .serving then ⟨member.client, .stopping⟩ else member
  | .exit => ⟨member.client, .exited⟩

/-- One etcd and every process that has connected to it. -/
structure Fleet where
  etcd : MetadataStore
  members : List Member

inductive FleetAction where
  | start (nodeId nodeAddr : String)
  | member (position : Nat) (action : MemberAction)
  | expire (lease : Nat)
deriving DecidableEq

namespace Fleet

def new : Fleet where
  etcd := .empty
  members := []

/-- The answer is that of the call to etcd, if the step makes one. -/
def step (fleet : Fleet) : FleetAction → Fleet × Option (Except EtcdError Unit)
  | .start nodeId nodeAddr =>
      ({ fleet with members := fleet.members ++ [⟨.connect nodeId nodeAddr, .connected⟩] }, none)
  | .expire lease => ({ fleet with etcd := fleet.etcd.apply (.finish lease) }, none)
  | .member position action =>
      match fleet.members[position]? with
      | none => (fleet, none)
      | some member =>
          match member.asks action with
          | none =>
              let after := member.goesOn fleet.etcd (.ok ()) action
              ({ fleet with members := fleet.members.set position after }, none)
          | some (change, fate) =>
              let (etcd, result) := call fleet.etcd change fate
              let after := member.goesOn fleet.etcd result action
              (⟨etcd, fleet.members.set position after⟩, some result)

/-- The change of etcd that a step brings about. -/
def change (fleet : Fleet) : FleetAction → Option MetadataChange
  | .start _ _ => none
  | .expire lease => some (.finish lease)
  | .member position action =>
      match fleet.members[position]?.bind (Member.asks · action) with
      | none => none
      | some (change, fate) =>
          if fate = .failed ∨ Refuses fleet.etcd change then none else some change

theorem call_fst (etcd : MetadataStore) (change : MetadataChange) (fate : CallFate) :
    (call etcd change fate).1 =
      if fate = .failed ∨ Refuses etcd change then etcd else etcd.apply change := by
  cases fate <;> by_cases refused : Refuses etcd change <;> simp [call, refused]

theorem etcd_step (fleet : Fleet) (action : FleetAction) :
    (fleet.step action).1.etcd =
      match fleet.change action with
      | none => fleet.etcd
      | some change => fleet.etcd.apply change := by
  cases action with
  | start nodeId nodeAddr => rfl
  | expire lease => rfl
  | member position action =>
      cases found : fleet.members[position]? with
      | none => simp only [step, change, found, Option.bind_none]
      | some member =>
          cases asked : member.asks action with
          | none => simp only [step, change, found, asked, Option.bind_some]
          | some request =>
              obtain ⟨change, fate⟩ := request
              simp only [step, Fleet.change, found, asked, Option.bind_some, call_fst]
              split_ifs <;> rfl

/-! ## Which publication is found -/

/-- A serving process publishes a location, under its lease if it has one, and etcd
takes it. -/
def Publishes (fleet : Fleet) (prefixHash : PrefixHash) (location : BlockLocationMeta)
    (lease : Option Nat) (action : FleetAction) : Prop :=
  ∃ position member offset size generation fate,
    action = .member position (.publish prefixHash offset size generation fate) ∧
      fleet.members[position]? = some member ∧
      (member.stage = .serving ∨ member.stage = .stopping) ∧
      member.client.leaseId = lease ∧ member.client.location offset size generation = location ∧
      fate ≠ .failed ∧ ∀ held ∈ lease, held ∈ fleet.etcd.live

/-- A lease runs out, or its process revokes it. -/
def EndsLease (fleet : Fleet) (lease : Nat) (action : FleetAction) : Prop :=
  action = .expire lease ∨
    ∃ position member fate, action = .member position (.revoke fate) ∧
      fleet.members[position]? = some member ∧ member.stage = .serving ∧
      member.client.leaseId = some lease ∧ fate ≠ .failed

/-- What takes a publication away: another under the same prefix hash, or the end of the
lease it was made under. -/
def Displaces (fleet : Fleet) (prefixHash : PrefixHash) (lease : Option Nat)
    (action : FleetAction) : Prop :=
  (∃ location other, fleet.Publishes prefixHash location other action) ∨
    ∃ held ∈ lease, fleet.EndsLease held action

theorem change_member {fleet : Fleet} {position : Nat} {action : MemberAction}
    {made : MetadataChange} :
    fleet.change (.member position action) = some made ↔
      ∃ member fate, fleet.members[position]? = some member ∧
        member.asks action = some (made, fate) ∧ fate ≠ .failed ∧ ¬ Refuses fleet.etcd made := by
  simp only [change]
  cases found : fleet.members[position]? with
  | none => simp
  | some member =>
      cases asked : member.asks action with
      | none => simp [asked]
      | some request =>
          obtain ⟨wanted, fate⟩ := request
          simp only [Option.bind_some, asked]
          constructor
          · intro carried
            split_ifs at carried with dropped
            obtain rfl := Option.some.inj carried
            exact ⟨member, fate, rfl, asked, not_or.mp dropped⟩
          · rintro ⟨_, other, ⟨⟩, asks, kept⟩
            rw [asked] at asks
            obtain ⟨rfl, rfl⟩ := Prod.mk.inj (Option.some.inj asks)
            exact if_neg (not_or.mpr kept)

/-- Only a publication puts a block record. -/
theorem change_eq_put_block {fleet : Fleet} {action : FleetAction} {prefixHash : PrefixHash}
    {record : Leased MetadataValue} :
    fleet.change action = some (.put (blockKey prefixHash) record) ↔
      ∃ location, record.value = .block location ∧
        fleet.Publishes prefixHash location record.lease action := by
  constructor
  · intro made
    cases action with
    | start nodeId nodeAddr => cases made
    | expire lease => cases made
    | member position action =>
        obtain ⟨member, fate, found, asked, carried, taken⟩ := change_member.mp made
        cases action with
        | exit => cases asked
        | grant fate =>
            simp only [Member.asks, Option.ite_none_right_eq_some] at asked
            cases asked.2
        | putNode fate =>
            simp only [Member.asks, Option.ite_none_right_eq_some, Option.some.injEq,
              Prod.mk.injEq, MetadataClient.putNode, Change.put.injEq] at asked
            exact absurd asked.2.1.1 (nodeKey_ne_blockKey _ _)
        | revoke fate =>
            simp [Member.asks, MetadataClient.revokeLease] at asked
        | publish other offset size generation fate =>
            simp only [Member.asks, Option.ite_none_right_eq_some, Option.some.injEq,
              Prod.mk.injEq, MetadataClient.publishBlock, Change.put.injEq] at asked
            obtain ⟨serves, ⟨sameKey, rfl⟩, rfl⟩ := asked
            obtain rfl := blockKey_injective sameKey
            exact ⟨_, rfl, position, member, offset, size, generation, fate, rfl, found, serves, rfl,
              rfl, carried, not_not.mp taken⟩
  · obtain ⟨value, lease⟩ := record
    rintro ⟨location, rfl, position, member, offset, size, generation, fate, rfl, found, serves, rfl,
      rfl, carried, taken⟩
    refine change_member.mpr ⟨member, fate, found, ?_, carried, not_not.mpr taken⟩
    simp only [Member.asks, if_pos serves, MetadataClient.publishBlock]

/-- Under a lease that something is bound to, a step ends it exactly when etcd ends it. -/
theorem change_eq_finish {fleet : Fleet} {action : FleetAction} {lease : Nat}
    (live : lease ∈ fleet.etcd.live) :
    fleet.change action = some (.finish lease) ↔ fleet.EndsLease lease action := by
  constructor
  · intro made
    cases action with
    | start nodeId nodeAddr => cases made
    | expire other =>
        cases made
        exact Or.inl rfl
    | member position action =>
        obtain ⟨member, fate, found, asked, carried, taken⟩ := change_member.mp made
        cases action with
        | revoke fate =>
            simp only [Member.asks, MetadataClient.revokeLease, Option.ite_none_right_eq_some,
              Option.map_eq_some_iff, Prod.mk.injEq] at asked
            obtain ⟨serves, -, ⟨held, bound, rfl⟩, sameChange, rfl⟩ := asked
            obtain rfl := Change.finish.inj sameChange
            exact Or.inr ⟨position, member, fate, rfl, found, serves, bound, carried⟩
        | _ => simp [Member.asks, MetadataClient.putNode, MetadataClient.publishBlock] at asked
  · rintro (rfl | ⟨position, member, fate, rfl, found, serves, bound, carried⟩)
    · rfl
    · refine change_member.mpr ⟨member, fate, found, ?_, carried, not_not.mpr live⟩
      simp only [Member.asks, if_pos serves, MetadataClient.revokeLease, bound, Option.map_some]

theorem Publishes.change_eq {fleet : Fleet} {prefixHash : PrefixHash}
    {location : BlockLocationMeta} {lease : Option Nat} {action : FleetAction}
    (publishes : fleet.Publishes prefixHash location lease action) :
    fleet.change action = some (.put (blockKey prefixHash) ⟨.block location, lease⟩) ∧
      fleet.etcd.Accepts ⟨.block location, lease⟩ := by
  refine ⟨change_eq_put_block.mpr ⟨location, rfl, publishes⟩, ?_⟩
  obtain ⟨-, -, -, -, -, -, -, -, -, -, -, -, accepted⟩ := publishes
  exact accepted

/-- While a publication is found, it is taken away by the changes of etcd that displace
its record. -/
theorem displaces_iff {fleet : Fleet} {prefixHash : PrefixHash} {record : Leased MetadataValue}
    (found : fleet.etcd.records.lookup (blockKey prefixHash) = some record)
    (action : FleetAction) :
    fleet.Displaces prefixHash record.lease action ↔
      ∃ change, fleet.change action = some change ∧
        fleet.etcd.Displaces (blockKey prefixHash) record change := by
  constructor
  · rintro (⟨location, other, publishes⟩ | ⟨held, bound, ends⟩)
    · exact ⟨_, publishes.change_eq.1, rfl, publishes.change_eq.2⟩
    · have live := fleet.etcd.boundLive _ _ held found bound
      exact ⟨_, (change_eq_finish live).mpr ends, bound⟩
  · rintro ⟨change, made, displaced⟩
    cases change with
    | grant => exact displaced.elim
    | put key other =>
        obtain ⟨rfl, -⟩ := displaced
        obtain ⟨location, -, publishes⟩ := change_eq_put_block.mp made
        exact Or.inl ⟨location, other.lease, publishes⟩
    | finish held =>
        have live := fleet.etcd.boundLive _ _ held found displaced
        exact Or.inr ⟨held, displaced, (change_eq_finish live).mp made⟩

/-- One step: a publication is found after it exactly when the step makes it, or it was
found before and the step does not take it away. -/
theorem lookup_block_step (prefixHash : PrefixHash) (location : BlockLocationMeta)
    (lease : Option Nat) (fleet : Fleet) (action : FleetAction) :
    (next step fleet action).etcd.records.lookup (blockKey prefixHash) =
        some ⟨.block location, lease⟩ ↔
      fleet.Publishes prefixHash location lease action ∨
        fleet.etcd.records.lookup (blockKey prefixHash) = some ⟨.block location, lease⟩ ∧
          ¬ fleet.Displaces prefixHash lease action := by
  have kept : fleet.etcd.records.lookup (blockKey prefixHash) = some ⟨.block location, lease⟩ →
      (fleet.Displaces prefixHash lease action ↔ ∃ change, fleet.change action = some change ∧
        fleet.etcd.Displaces (blockKey prefixHash) ⟨.block location, lease⟩ change) :=
    fun found => displaces_iff found action
  rw [next, etcd_step, and_congr_right fun found => not_congr (kept found)]
  cases made : fleet.change action with
  | none =>
      have silent : ¬ fleet.Publishes prefixHash location lease action := by
        intro publishes
        rw [publishes.change_eq.1] at made
        cases made
      simp [silent]
  | some change =>
      have puts : change = .put (blockKey prefixHash) ⟨.block location, lease⟩ ∧
          fleet.etcd.Accepts ⟨.block location, lease⟩ ↔
          fleet.Publishes prefixHash location lease action := by
        constructor
        · rintro ⟨rfl, -⟩
          obtain ⟨same, sameValue, publishes⟩ := change_eq_put_block.mp made
          obtain rfl := MetadataValue.block.inj sameValue
          exact publishes
        · intro publishes
          rw [publishes.change_eq.1] at made
          exact ⟨(Option.some.inj made).symm, publishes.change_eq.2⟩
      simp only [fleet.etcd.lookup_apply, puts, Option.some.injEq, exists_eq_left']

theorem lookupBlock_eq_some {etcd : MetadataStore} {prefixHash : PrefixHash}
    {info : RemoteBlockInfo} :
    lookupBlock etcd prefixHash = some info ↔
      ∃ location lease, location.info = info ∧
        etcd.records.lookup (blockKey prefixHash) = some ⟨.block location, lease⟩ := by
  unfold lookupBlock
  split
  · rename_i location lease found
    simp only [found, Option.some.injEq, Leased.mk.injEq, MetadataValue.block.injEq]
    constructor
    · rintro rfl
      exact ⟨location, lease, rfl, rfl, rfl⟩
    · rintro ⟨-, -, rfl, rfl, rfl⟩
      rfl
  · rename_i other
    refine iff_of_false nofun ?_
    rintro ⟨location, lease, -, found⟩
    exact other location lease found

/-- After any interleaving of processes, failing calls and leases that run out, a lookup
finds a location exactly when some process published it, and since then nobody published
under that prefix hash and the lease it was published under, if there was one, has not
ended. A process that was granted no lease publishes without one: only another
publication takes its locations away, however long it is gone. -/
theorem lookupBlock_run_iff (actions : List FleetAction) (prefixHash : PrefixHash)
    (info : RemoteBlockInfo) :
    lookupBlock (run (next step) new actions).etcd prefixHash = some info ↔
      ∃ before action after location lease, actions = before ++ action :: after ∧
        location.info = info ∧
        (run (next step) new before).Publishes prefixHash location lease action ∧
        Allows (next step) (fun fleet action => ¬ fleet.Displaces prefixHash lease action)
          (run (next step) new (before ++ [action])) after := by
  have history := fun location lease => @run_holds_iff _ _ (next step)
    (fun fleet => fleet.etcd.records.lookup (blockKey prefixHash) = some ⟨.block location, lease⟩)
    _ _ (lookup_block_step prefixHash location lease) new actions
  have nothing : ∀ location lease, (new.etcd.records.lookup (blockKey prefixHash)) ≠
      some (⟨.block location, lease⟩ : Leased MetadataValue) := fun _ _ => nofun
  rw [lookupBlock_eq_some]
  constructor
  · rintro ⟨location, lease, isInfo, found⟩
    rcases (history location lease).mp found with
      ⟨initial, -⟩ | ⟨before, action, after, split, published, kept⟩
    · exact absurd initial (nothing location lease)
    · exact ⟨before, action, after, location, lease, split, isInfo, published, kept⟩
  · rintro ⟨before, action, after, location, lease, split, isInfo, published, kept⟩
    exact ⟨location, lease, isInfo, (history location lease).mpr
      (Or.inr ⟨before, action, after, split, published, kept⟩)⟩

/-- The location of a process that could not register outlives the process. -/
example :
    lookupBlock (run (next step) new [.start "a" "a:1", .member 0 (.grant .failed),
      .member 0 (.publish (.ofByte 1) 0 64 1 .answered), .member 0 (.revoke .answered),
      .member 0 .exit]).etcd (.ofByte 1) = some ⟨"a", "a:1", 0, 64, 1⟩ := by
  decide +kernel

end Fleet

end CmxRdma.Agent
