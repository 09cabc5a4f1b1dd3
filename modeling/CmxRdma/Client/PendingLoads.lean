import CmxRdma.Client.VllmConnector
import Mathlib.Data.List.Nodup

/-!
Contract: which of the started loads `wait_for_layer_load` waits for.

Owns: the wait as a walk over the pending futures that any order of completions
can interrupt, the futures `start_load_kv` leaves pending for any task list, and
exactly when no started load is forgotten.

Does not own: the outcome of a load, which the wait drops; the timeout, without
which the wait is stated. Python walks the dictionary in insertion order, the
model in any order.
-/

namespace CmxRdma.Client

open CmxRdma.Lib.Text
open CmxRdma.Lib.Transition

/-! ## The wait -/

/-- A wait in progress: the futures that have finished so far, and those still to
be waited for, in order. -/
structure LoadWait where
  finished : List Nat
  remaining : List Nat

/-- A future finishes, with a result or an exception; or the waiting thread looks at
the future it blocks on. -/
inductive WaitEvent where
  | finish (future : Nat)
  | resume

namespace LoadWait

/-- `fut.result()` goes on once the future has finished. -/
def step (wait : LoadWait) : WaitEvent → LoadWait
  | .finish future => { wait with finished := future :: wait.finished }
  | .resume =>
      match wait.remaining with
      | [] => wait
      | future :: rest => if future ∈ wait.finished then { wait with remaining := rest } else wait

/-- The wait over some futures before anything has finished. -/
def start (futures : List Nat) : LoadWait := ⟨[], futures⟩

/-- The loop has gone through all futures. -/
def Returned (wait : LoadWait) : Prop := wait.remaining = []

/-- Along a wait every future is still to be waited for or has finished. -/
theorem remaining_or_finished (futures : List Nat) (events : List WaitEvent) {future : Nat}
    (waited : future ∈ futures) :
    future ∈ (run step (start futures) events).remaining ∨
      future ∈ (run step (start futures) events).finished := by
  refine @run_invariant _ _ step
    (fun wait => future ∈ wait.remaining ∨ future ∈ wait.finished) ?_ _ (Or.inl waited) events
  rintro ⟨finished, remaining⟩ event covered
  cases event with
  | finish other => exact covered.imp_right (List.mem_cons_of_mem other)
  | resume =>
      cases remaining with
      | nil => exact covered
      | cons first rest =>
          simp only [step]
          split_ifs with isFinished
          · rcases covered with waiting | done
            · rcases List.mem_cons.mp waiting with rfl | later
              · exact Or.inr isFinished
              · exact Or.inl later
            · exact Or.inr done
          · exact covered

theorem run_finish (wait : LoadWait) (futures : List Nat) :
    run step wait (futures.map .finish) = ⟨futures.reverse ++ wait.finished, wait.remaining⟩ := by
  induction futures generalizing wait with
  | nil => rfl
  | cons future rest inductionHypothesis =>
      rw [List.map_cons, run_cons, inductionHypothesis]
      simp [step]

/-- Once all futures have finished, the thread goes through them. -/
theorem run_resume {finished : List Nat} (futures : List Nat)
    (done : ∀ future ∈ futures, future ∈ finished) :
    run step ⟨finished, futures⟩ (List.replicate futures.length .resume) = ⟨finished, []⟩ := by
  induction futures with
  | nil => rfl
  | cons future rest inductionHypothesis =>
      obtain ⟨isFinished, others⟩ := List.forall_mem_cons.mp done
      have goesOn : step ⟨finished, future :: rest⟩ .resume = ⟨finished, rest⟩ := if_pos isFinished
      rw [List.length_cons, List.replicate_succ, run_cons, goesOn]
      exact inductionHypothesis others

/-- A wait can return as soon as its own futures have finished, and no others. -/
theorem exists_returning_run (futures : List Nat) :
    ∃ events, (run step (start futures) events).Returned ∧
      ∀ future ∈ (run step (start futures) events).finished, future ∈ futures := by
  refine ⟨futures.map .finish ++ List.replicate futures.length .resume, ?_⟩
  rw [run_append, run_finish, start, List.append_nil, run_resume futures (by simp)]
  exact ⟨rfl, by simp⟩

/-- Some futures have finished whenever a wait returns exactly when all of them are
waited for. -/
theorem finished_when_returned_iff (pending : List Nat) (Started : Nat → Prop) :
    (∀ order events, order.Perm pending → (run step (start order) events).Returned →
        ∀ future, Started future → future ∈ (run step (start order) events).finished) ↔
      ∀ future, Started future → future ∈ pending := by
  constructor
  · intro complete future started
    obtain ⟨events, returned, only⟩ := exists_returning_run pending
    exact only future (complete pending events (List.Perm.refl _) returned future started)
  · intro waited order events permuted returned future started
    have covered := remaining_or_finished order events (permuted.mem_iff.mpr (waited future started))
    rw [returned] at covered
    exact covered.resolve_left List.not_mem_nil

end LoadWait

namespace CmxRdmaConnector

/-! ## The futures left pending -/

/-- The futures the dictionary of pending loads holds. -/
def pendingFutures (connector : CmxRdmaConnector) : List Nat :=
  connector.pendingLoads.entries.map Sigma.snd

theorem mem_pendingFutures_iff (connector : CmxRdmaConnector) (future : Nat) :
    future ∈ connector.pendingFutures ↔
      ∃ key, connector.pendingLoads.lookup key = some future := by
  rw [pendingFutures, List.mem_map]
  constructor
  · rintro ⟨⟨key, _⟩, filed, rfl⟩
    exact ⟨key, AList.mem_lookup_iff.mpr filed⟩
  · rintro ⟨key, found⟩
    exact ⟨⟨key, future⟩, AList.mem_lookup_iff.mp found, rfl⟩

/-- The key a load is filed under. -/
def loadKey (task : LoadTask) : String := String.ofList (hexEncode task.prefixHash.toBytes)

theorem loadKey_eq_iff {task other : LoadTask} :
    loadKey task = loadKey other ↔ task.prefixHash = other.prefixHash := by
  constructor
  · intro same
    have sameDigits := String.ofList_injective same
    have sameBytes := congrArg hexDecode sameDigits
    rw [hexDecode_hexEncode, hexDecode_hexEncode] at sameBytes
    exact PrefixHash.toBytes_injective (Option.some.inj sameBytes)
  · intro same
    rw [loadKey, same, loadKey]

/-- Every pending future has been submitted. -/
def Bounded (connector : CmxRdmaConnector) : Prop :=
  ∀ key future, connector.pendingLoads.lookup key = some future → future < connector.submitted

@[simp] theorem submitted_submitLoad (connector : CmxRdmaConnector) (task : LoadTask) :
    (connector.submitLoad task).submitted = connector.submitted + 1 := rfl

theorem lookup_submitLoad (connector : CmxRdmaConnector) (task : LoadTask) (key : String) :
    (connector.submitLoad task).pendingLoads.lookup key =
      if key = loadKey task then some connector.submitted
      else connector.pendingLoads.lookup key := by
  by_cases same : key = loadKey task
  · rw [if_pos same, same]
    exact AList.lookup_insert _
  · rw [if_neg same]
    exact AList.lookup_insert_ne same

theorem Bounded.submitLoad {connector : CmxRdmaConnector} (bounded : connector.Bounded)
    (task : LoadTask) : (connector.submitLoad task).Bounded := by
  intro key future found
  rw [lookup_submitLoad] at found
  rw [submitted_submitLoad]
  split_ifs at found
  · exact Option.some.inj found ▸ Nat.lt_succ_self _
  · exact Nat.lt_succ_of_lt (bounded key future found)

theorem submitted_foldl_submitLoad (loads : List LoadTask) (connector : CmxRdmaConnector) :
    (loads.foldl submitLoad connector).submitted = connector.submitted + loads.length := by
  induction loads generalizing connector with
  | nil => rfl
  | cons task rest inductionHypothesis =>
      rw [List.foldl_cons, inductionHypothesis, submitted_submitLoad, List.length_cons]
      omega

/-- An earlier future stays filed under its key as long as no task has that key. -/
theorem lookup_foldl_submitLoad_iff (loads : List LoadTask) {connector : CmxRdmaConnector}
    (key : String) {future : Nat} (earlier : future < connector.submitted) :
    (loads.foldl submitLoad connector).pendingLoads.lookup key = some future ↔
      connector.pendingLoads.lookup key = some future ∧ key ∉ loads.map loadKey := by
  induction loads generalizing connector with
  | nil => simp
  | cons task rest inductionHypothesis =>
      have notNew : connector.submitted ≠ future := Nat.ne_of_gt earlier
      rw [List.foldl_cons, inductionHypothesis (Nat.lt_succ_of_lt earlier), lookup_submitLoad,
        List.map_cons, List.mem_cons, not_or]
      by_cases same : key = loadKey task <;> simp [same, notNew]

/-- The future just submitted stays pending exactly when no later task has its key. -/
theorem submitted_pending_iff {connector : CmxRdmaConnector} (bounded : connector.Bounded)
    (task : LoadTask) (rest : List LoadTask) :
    connector.submitted ∈ (rest.foldl submitLoad (connector.submitLoad task)).pendingFutures ↔
      task.prefixHash ∉ rest.map LoadTask.prefixHash := by
  have absent : loadKey task ∉ rest.map loadKey ↔
      task.prefixHash ∉ rest.map LoadTask.prefixHash := by
    simp only [List.mem_map, loadKey_eq_iff]
  have earlier : connector.submitted < (connector.submitLoad task).submitted :=
    Nat.lt_succ_self connector.submitted
  rw [mem_pendingFutures_iff, ← absent]
  simp only [lookup_foldl_submitLoad_iff rest _ earlier, lookup_submitLoad]
  constructor
  · rintro ⟨key, found, notLater⟩
    split_ifs at found with same
    · exact same ▸ notLater
    · exact absurd (bounded key _ found) (Nat.lt_irrefl _)
  · intro notLater
    exact ⟨loadKey task, if_pos rfl, notLater⟩

/-- All futures of a loop are pending after it exactly when no hash repeats. -/
theorem all_pending_iff (loads : List LoadTask) {connector : CmxRdmaConnector}
    (bounded : connector.Bounded) :
    (∀ future, connector.submitted ≤ future →
        future < (loads.foldl submitLoad connector).submitted →
        future ∈ (loads.foldl submitLoad connector).pendingFutures) ↔
      (loads.map LoadTask.prefixHash).Nodup := by
  induction loads generalizing connector with
  | nil =>
      refine iff_of_true ?_ List.nodup_nil
      intro future notBefore before
      exact absurd (notBefore.trans_lt before) (Nat.lt_irrefl _)
  | cons task rest inductionHypothesis =>
      rw [List.foldl_cons, List.map_cons, List.nodup_cons, ← submitted_pending_iff bounded task rest,
        ← inductionHypothesis (bounded.submitLoad task)]
      have total := submitted_foldl_submitLoad rest (connector.submitLoad task)
      rw [submitted_submitLoad] at total ⊢
      constructor
      · intro pending
        refine ⟨pending _ le_rfl (by omega), fun future notBefore before => ?_⟩
        exact pending future (by omega) before
      · rintro ⟨first, others⟩ future notBefore before
        rcases Nat.eq_or_lt_of_le notBefore with rfl | later
        · exact first
        · exact others future (by omega) before

/-! ## Runs -/

theorem bounded_new (modelId : String) : (new modelId).Bounded := by
  intro key future found
  cases found

theorem Bounded.foldl_submitLoad {connector : CmxRdmaConnector} (bounded : connector.Bounded)
    (loads : List LoadTask) : (loads.foldl CmxRdmaConnector.submitLoad connector).Bounded :=
  List.foldlRecOn (motive := Bounded) loads _ bounded fun _ held task _ => held.submitLoad task

/-- Saves are filed elsewhere and only move the count on. -/
theorem Bounded.foldl_submitSave {connector : CmxRdmaConnector} (bounded : connector.Bounded)
    (saves : List SaveTask) : (saves.foldl submitSave connector).Bounded :=
  List.foldlRecOn (motive := Bounded) saves submitSave bounded fun _ held _ _ key future found =>
    Nat.lt_succ_of_lt (held key future found)

/-- The tasks `start_load_kv` goes through. -/
def loadsOf (forwardContext : ForwardContext) : List LoadTask :=
  ((getMeta forwardContext).map ConnectorMeta.loads).getD []

/-- `start_load_kv` submits its tasks one by one and may replace the metadata. -/
theorem startLoadKv_eq (connector : CmxRdmaConnector) (forwardContext : ForwardContext) :
    ∃ currentMeta, (connector.startLoadKv forwardContext).1 =
      (loadsOf forwardContext).foldl submitLoad { connector with currentMeta := currentMeta } := by
  rw [startLoadKv, loadsOf]
  cases getMeta forwardContext with
  | none => exact ⟨connector.currentMeta, rfl⟩
  | some connectorMeta =>
      by_cases empty : connectorMeta.loads.isEmpty
      · refine ⟨connector.currentMeta, ?_⟩
        simp [List.isEmpty_iff.mp empty]
      · exact ⟨connectorMeta, congrArg Prod.fst (if_neg empty)⟩

theorem Bounded.step {connector : CmxRdmaConnector} (bounded : connector.Bounded)
    (call : WorkerCall) : (next CmxRdmaConnector.step connector call).Bounded := by
  cases call with
  | startLoadKv forwardContext =>
      obtain ⟨currentMeta, started⟩ := startLoadKv_eq connector forwardContext
      have sameBound : Bounded { connector with currentMeta := currentMeta } := bounded
      rw [next, CmxRdmaConnector.step, started]
      exact sameBound.foldl_submitLoad (loadsOf forwardContext)
  | layer call =>
      cases call with
      | waitForLayerLoad layerName =>
          intro key future found
          cases found
      | saveKvLayer layerName kvLayer =>
          simp only [next, CmxRdmaConnector.step, saveKvLayer]
          cases connector.currentMeta with
          | none => exact bounded
          | some connectorMeta =>
              by_cases empty : connectorMeta.saves.isEmpty
              · simp only [empty, if_true]
                exact bounded
              · simp only [empty, Bool.false_eq_true, if_false]
                exact bounded.foldl_submitSave connectorMeta.saves
  | waitForSave => exact bounded

/-- `start_load_kv` submits one future for each task, and they are all pending after it
exactly when no hash repeats. -/
theorem startLoadKv_pending_iff {connector : CmxRdmaConnector} (bounded : connector.Bounded)
    (forwardContext : ForwardContext) :
    let started := (connector.startLoadKv forwardContext).1
    started.submitted = connector.submitted + (loadsOf forwardContext).length ∧
      ((∀ future, connector.submitted ≤ future ∧ future < started.submitted →
          future ∈ started.pendingFutures) ↔
        ((loadsOf forwardContext).map LoadTask.prefixHash).Nodup) := by
  intro started
  obtain ⟨currentMeta, isStarted⟩ := startLoadKv_eq connector forwardContext
  have sameBound : Bounded { connector with currentMeta := currentMeta } := bounded
  have total := submitted_foldl_submitLoad (loadsOf forwardContext)
    { connector with currentMeta := currentMeta }
  have pendingIff := all_pending_iff (loadsOf forwardContext) sameBound
  rw [← isStarted] at total pendingIff
  exact ⟨total, by simpa only [and_imp] using pendingIff⟩

/-- Whatever a worker has done before, and in whatever order the pending futures are
walked and finish: when the wait returns, every load that `start_load_kv` started has
finished, if and only if no two of its tasks have the same hash. -/
theorem started_loads_finished_iff (modelId : String) (calls : List WorkerCall)
    (forwardContext : ForwardContext) :
    let before := run (next step) (new modelId) calls
    let started := (before.startLoadKv forwardContext).1
    started.submitted = before.submitted + (loadsOf forwardContext).length ∧
      ((∀ order events, order.Perm started.pendingFutures →
          (run LoadWait.step (.start order) events).Returned →
          ∀ future, before.submitted ≤ future ∧ future < started.submitted →
            future ∈ (run LoadWait.step (.start order) events).finished) ↔
        ((loadsOf forwardContext).map LoadTask.prefixHash).Nodup) := by
  intro before started
  have bounded : before.Bounded :=
    run_invariant (fun _ call held => held.step call) (bounded_new modelId) calls
  obtain ⟨total, pendingIff⟩ := startLoadKv_pending_iff bounded forwardContext
  exact ⟨total, (LoadWait.finished_when_returned_iff started.pendingFutures _).trans pendingIff⟩

/-- Two tasks of one hash: both loads are started, only the second is waited for, and
the wait returns before the first has finished. -/
theorem repeated_hash_load_forgotten :
    let task : LoadTask := ⟨.ofByte 7, [], 16⟩
    let started := (new "").startLoadKv (.object (some ⟨[task, task], []⟩))
    let final := run LoadWait.step (.start started.1.pendingFutures) [.finish 1, .resume]
    started.2 = [.get task.prefixHash "", .get task.prefixHash ""] ∧
      started.1.submitted = 2 ∧ final.remaining = [] ∧ 0 ∉ final.finished := by
  decide

end CmxRdmaConnector

end CmxRdma.Client
