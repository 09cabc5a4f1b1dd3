import CmxRdma.Lib.FairLocks

/-!
Contract: the two locks of `MetadataClient` in `metadata.rs` and the calls that take them.

Owns: for each method the order in which it asks for `client` and `lease_id`, how long it
keeps them and what it does when a call to etcd fails; which calls can block each other
for ever, and that all others return.

Does not own: what the calls do to etcd; see `Leases`. Both locks are fair: they serve
callers in the order they asked, and a reader waits behind a writer that asked before.
-/

namespace CmxRdma.Agent

open CmxRdma.Lib.FairLocks
open CmxRdma.Lib.Transition

/-! ## Methods -/

inductive MetadataLock where
  | client
  | leaseId
deriving DecidableEq

/-- The shared data a method branches on: whether `lease_id` is set. -/
abbrev MetadataProgram := Program MetadataLock Bool

inductive MetadataCall where
  | registerNode
  | startKeepalive
  | listNodes
  | publishBlock
  | lookupBlock
  | startBlockWatch
  | revokeLease
deriving DecidableEq

namespace MetadataProgram

/-- The last call to etcd under the guard of `client`, which is dropped whatever the
call brings. -/
def lastCall (rest : MetadataProgram) : MetadataProgram :=
  .call (.release .client rest) (.release .client rest)

/-- The guard of `client` lives to the end; that of `lease_id` for one assignment. -/
def registerNode : MetadataProgram :=
  .acquire .client .write <|
  .call
    (.acquire .leaseId .write <|
      .update (fun _ => true) <|
      .release .leaseId <|
      lastCall .done)
    (.release .client .done)

/-- The guard of `lease_id` is dropped before `client` is asked for. -/
def startKeepalive : MetadataProgram :=
  .acquire .leaseId .read <|
  .test id
    (.release .leaseId <| .acquire .client .write <| lastCall .done)
    (.release .leaseId .done)

def listNodes : MetadataProgram :=
  .acquire .client .write <| lastCall .done

def publishBlock : MetadataProgram :=
  .acquire .leaseId .read <|
  .release .leaseId <|
  .acquire .client .write <|
  lastCall .done

def lookupBlock : MetadataProgram :=
  .acquire .client .write <| lastCall .done

/-- Two watches under one guard. -/
def startBlockWatch : MetadataProgram :=
  .acquire .client .write <|
  .call (lastCall .done) (.release .client .done)

/-- The guard in the scrutinee of `if let` lives to the end of its block. -/
def revokeLease : MetadataProgram :=
  .acquire .leaseId .read <|
  .test id
    (.acquire .client .write <| lastCall <| .release .leaseId .done)
    (.release .leaseId .done)

end MetadataProgram

def MetadataCall.program : MetadataCall → MetadataProgram
  | .registerNode => MetadataProgram.registerNode
  | .startKeepalive => MetadataProgram.startKeepalive
  | .listNodes => MetadataProgram.listNodes
  | .publishBlock => MetadataProgram.publishBlock
  | .lookupBlock => MetadataProgram.lookupBlock
  | .startBlockWatch => MetadataProgram.startBlockWatch
  | .revokeLease => MetadataProgram.revokeLease

/-! ## Calls in flight -/

abbrev MetadataCalls := System MetadataCall MetadataLock Bool

namespace MetadataCalls

/-- `connect`: no lease and no call. -/
def connect : MetadataCalls := ⟨fun _ => [], false, []⟩

def step (calls : MetadataCalls) (action : Action MetadataCall) : MetadataCalls :=
  System.step MetadataCall.program calls action

end MetadataCalls

/-- The only nestings of the two locks. -/
def MetadataCall.nests : MetadataCall → MetadataLock → MetadataLock → Prop
  | .registerNode, .client, .leaseId => True
  | .revokeLease, .leaseId, .client => True
  | _, _, _ => False

theorem MetadataCall.nests_iff {call : MetadataCall} {held next : MetadataLock} :
    call.nests held next ↔ call = .registerNode ∧ held = .client ∧ next = .leaseId ∨
      call = .revokeLease ∧ held = .leaseId ∧ next = .client := by
  cases call <;> cases held <;> cases next <;> simp [nests]

theorem MetadataCall.program_orderly (call : MetadataCall) :
    call.program.Orderly call.nests [] := by
  cases call <;>
    simp [program, Program.Orderly, nests, MetadataProgram.registerNode,
      MetadataProgram.startKeepalive, MetadataProgram.listNodes, MetadataProgram.publishBlock,
      MetadataProgram.lookupBlock, MetadataProgram.startBlockWatch, MetadataProgram.revokeLease,
      MetadataProgram.lastCall]

namespace MetadataCalls

/-- A running call that has one lock and waits for the other. -/
def Holds (calls : MetadataCalls) (call : MetadataCall) (held awaited : MetadataLock) : Prop :=
  ∃ position thread, calls.threads[position]? = some thread ∧ thread.label = call ∧
    calls.InLine position held ∧ thread.awaits = some awaited

theorem Holds.running {calls : MetadataCalls} {call : MetadataCall}
    {held awaited : MetadataLock} (holds : calls.Holds call held awaited) :
    calls.Running call := by
  obtain ⟨position, thread, found, label, -, awaits⟩ := holds
  exact ⟨thread, List.mem_of_getElem? found, label, Thread.unfinished_of_awaits awaits⟩

/-! ## Deadlocks -/

theorem run_disciplined (actions : List (Action MetadataCall)) :
    (run step connect actions).Disciplined MetadataCall.nests :=
  System.run_disciplined MetadataCall.program_orderly false actions

/-- Ranked with `client` last, a deadlock shows the call that asks for `lease_id` under
the guard of `client`. -/
theorem registering_of_stuck {calls : MetadataCalls}
    (disciplined : calls.Disciplined MetadataCall.nests) (stuck : calls.Stuck) :
    calls.Holds .registerNode .client .leaseId := by
  obtain ⟨position, thread, held, next, found, awaits, inLine, nests, inverted⟩ :=
    System.exists_inversion_of_stuck disciplined stuck fun lock => if lock = .client then 1 else 0
  rcases MetadataCall.nests_iff.mp nests with ⟨label, rfl, rfl⟩ | ⟨-, rfl, rfl⟩
  · exact ⟨position, thread, found, label, inLine, awaits⟩
  · simp at inverted

/-- Ranked with `lease_id` last, it shows the one that asks the other way. -/
theorem revoking_of_stuck {calls : MetadataCalls}
    (disciplined : calls.Disciplined MetadataCall.nests) (stuck : calls.Stuck) :
    calls.Holds .revokeLease .leaseId .client := by
  obtain ⟨position, thread, held, next, found, awaits, inLine, nests, inverted⟩ :=
    System.exists_inversion_of_stuck disciplined stuck fun lock => if lock = .client then 0 else 1
  rcases MetadataCall.nests_iff.mp nests with ⟨-, rfl, rfl⟩ | ⟨label, rfl, rfl⟩
  · simp at inverted
  · exact ⟨position, thread, found, label, inLine, awaits⟩

/-- The calls that can block each other for ever: `register_node` has `client` and waits
for `lease_id`, `revoke_lease` has `lease_id` and waits for `client`. -/
theorem stuck_calls_hold_each_other (actions : List (Action MetadataCall))
    (stuck : (run step connect actions).Stuck) :
    (run step connect actions).Holds .registerNode .client .leaseId ∧
      (run step connect actions).Holds .revokeLease .leaseId .client :=
  ⟨registering_of_stuck (run_disciplined actions) stuck,
    revoking_of_stuck (run_disciplined actions) stuck⟩

/-- A second registration meets the revocation of the first lease. -/
theorem stuck_calls_hold_each_other_of_second_registration :
    let actions : List (Action MetadataCall) :=
      .start .registerNode :: List.replicate 9 (.advance 0 true) ++
        [.start .registerNode, .start .revokeLease, .advance 1 true, .advance 1 true,
          .advance 1 true, .advance 2 true, .advance 2 true, .advance 2 true, .advance 2 true,
          .advance 1 true]
    (run step connect actions).Stuck ∧
      (run step connect actions).Holds .registerNode .client .leaseId ∧
      (run step connect actions).Holds .revokeLease .leaseId .client := by
  intro actions
  have stuck : (run step connect actions).Stuck := by decide
  exact ⟨stuck, stuck_calls_hold_each_other actions stuck⟩

/-- Unless a registration and a revocation are in flight together, every schedule that
goes on giving turns to calls that can move ends with all calls returned, after no more
turns than the calls had steps left, whatever etcd answers. -/
theorem calls_return_of_apart (actions schedule : List (Action MetadataCall))
    (apart : ¬ ((run step connect actions).Running .registerNode ∧
      (run step connect actions).Running .revokeLease))
    (effective : Allows step System.Effective (run step connect actions) schedule) :
    let reached := run step (run step connect actions) schedule
    schedule.length ≤ System.work (run step connect actions) ∧
      ((∀ thread ∈ reached.threads, thread.finished = true) ∨
        ∃ position, ∀ answered, reached.Effective (.advance position answered)) := by
  intro reached
  have bounded := System.length_le_work MetadataCall.program effective
  refine ⟨Nat.le_of_add_right_le bounded, ?_⟩
  by_contra neither
  rw [not_or] at neither
  obtain ⟨someUnfinished, noneMoves⟩ := neither
  have stuck : reached.Stuck := by
    constructor
    · simpa using someUnfinished
    · intro position thread found
      by_contra idle
      rw [not_or, Bool.not_eq_true, Bool.not_eq_true] at idle
      exact noneMoves ⟨position, fun _ => ⟨thread, found, idle⟩⟩
  have disciplined : reached.Disciplined MetadataCall.nests := by
    rw [show reached = run step connect (actions ++ schedule) from (run_append ..).symm]
    exact run_disciplined (actions ++ schedule)
  -- both calls were in flight before the schedule, which starts none
  have before {call : MetadataCall} (running : reached.Running call) :
      (run step connect actions).Running call :=
    System.running_of_effective_run MetadataCall.program effective running
  exact apart ⟨before (registering_of_stuck disciplined stuck).running,
    before (revoking_of_stuck disciplined stuck).running⟩

/-- As in `main`: registered first, then a publication, the watches and the revocation
in flight together. -/
theorem calls_return_of_apart_as_in_main :
    let actions : List (Action MetadataCall) :=
      .start .registerNode :: List.replicate 9 (.advance 0 true) ++
        [.start .startBlockWatch, .start .publishBlock, .start .revokeLease]
    let schedule : List (Action MetadataCall) :=
      [.advance 3 true, .advance 2 true, .advance 1 true, .advance 3 true, .advance 3 true,
        .advance 3 true, .advance 1 true, .advance 2 true]
    let reached := run step (run step connect actions) schedule
    schedule.length ≤ System.work (run step connect actions) ∧
      ((∀ thread ∈ reached.threads, thread.finished = true) ∨
        ∃ position, ∀ answered, reached.Effective (.advance position answered)) := by
  intro actions schedule
  have apart : ¬ ((run step connect actions).Running .registerNode ∧
      (run step connect actions).Running .revokeLease) := by
    rintro ⟨registering, -⟩
    revert registering
    decide
  exact calls_return_of_apart actions schedule apart (by decide)

end MetadataCalls

end CmxRdma.Agent
