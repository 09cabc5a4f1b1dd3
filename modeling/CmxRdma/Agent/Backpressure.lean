import CmxRdma.Agent.DeleteByHash
import CmxRdma.Agent.MakeRoom
import CmxRdma.Agent.Pressure

/-!
Contract: an agent whose pressure level is set by the monitor, and `health`.

Owns: the agent between two ticks of the monitor, what `health` reports, and exactly
when an agent that refuses Stores can ever take one again.

Does not own: the second between two ticks; a tick can come between any two requests.
-/

namespace CmxRdma.Agent

open CmxRdma.BlockStore
open CmxRdma.Lib.Transition
open CmxRdma.Memory
open CmxRdma.Proto

/-- What happens to an agent with a monitor: the level is no longer arbitrary. -/
inductive MonitoredEvent where
  | request (request : Request)
  | tick
  | remote (contents : RemoteIndex)

/-- A tick stores the level of the statistics it reads. -/
def MonitoredEvent.event (thresholds : Thresholds) (service : CacheService) :
    MonitoredEvent → Event
  | .request asked => .request asked
  | .tick => .pressure (thresholds.level service.allocator.stats)
  | .remote contents => .remote contents

namespace CacheService

def underMonitor (platform : Platform) (thresholds : Thresholds) (service : CacheService)
    (event : MonitoredEvent) : CacheService × Option Response :=
  service.react platform (event.event thresholds service)

def health (service : CacheService) (uptimeSeconds : UInt64) : HealthResponse where
  healthy := service.pressureLevel < pressureReject
  nodeId := service.nodeId
  version := "0.1.0"
  uptimeSeconds := uptimeSeconds

/-- What the pool reports once every entry is deleted: the blocks that evictions and
overwrites left behind stay in use. -/
def emptiedStats (service : CacheService) : PoolStats :=
  { service.allocator.stats with
    usedBlocks := service.allocator.stats.usedBlocks - service.index.len }

/-- At the reject level a Store is refused before its stream is read. -/
theorem store_of_rejecting (platform : Platform) {service : CacheService}
    (rejecting : pressureReject ≤ service.pressureLevel) (now : UInt64) (stream : StoreStream) :
    service.store platform now stream = (service, .error (.status
      (resourceExhausted "memory pressure too high — store rejected"))) := by
  apply store_of_not_admitted
  unfold storeAdmit
  rw [if_pos rejecting]
  rfl

/-- Only the monitor sets the level. -/
theorem handle_pressureLevel (platform : Platform) (service : CacheService) (request : Request) :
    (service.handle platform request).1.pressureLevel = service.pressureLevel := by
  cases request with
  | lookup request =>
      simp only [handle, Prod.map, id, lookup]
      split
      · rfl
      · split
        · rfl
        · split <;> rfl
  | batchLookup request =>
      simp only [handle, Prod.map, id, batchLookup_fst]
      refine @run_invariant _ _ (next (lookupLocal platform request.modelId))
        (fun after => after.pressureLevel = service.pressureLevel) ?_ service rfl _
      intro after prefixHash same
      refine Eq.trans ?_ same
      simp only [next, lookupLocal]
      split <;> rfl
  | store now stream =>
      simp only [handle, Prod.map, id, store]
      split
      · rfl
      · split <;> rfl
  | get request =>
      simp only [handle, Prod.map, id, get]
      split
      · rfl
      · split <;> rfl
  | delete request =>
      simp only [handle, Prod.map, id, delete]
      split
      · rfl
      · split
        · rfl
        · split <;> rfl

theorem health_healthy (service : CacheService) (uptimeSeconds : UInt64) :
    (service.health uptimeSeconds).healthy = false ↔ pressureReject ≤ service.pressureLevel := by
  simp [health]

end CacheService

theorem isStored_store (answer : Except Failure StoreResponse) :
    isStored (some (.store answer)) = answer.isOk := by
  cases answer <;> rfl

section Books

variable {geometry : Geometry} {capacity : Nat} {service : CacheService} {lost : Nat}

theorem Accounted.usedBlocks_eq (accounted : Accounted geometry capacity service lost) :
    service.allocator.stats.usedBlocks = service.index.len + lost := by
  have balance := accounted.balance
  rw [← accounted.geometryEq] at balance
  simp only [BlockAllocator.stats, MemoryPool.stats]
  omega

theorem Accounted.emptiedStats_used (accounted : Accounted geometry capacity service lost) :
    service.emptiedStats.usedBlocks = lost := by
  rw [CacheService.emptiedStats, accounted.usedBlocks_eq]
  exact Nat.add_sub_cancel_left ..

theorem Accounted.proper (accounted : Accounted geometry capacity service lost)
    (someBlock : 0 < geometry.totalBlocks) (sized : geometry.totalBlocks < usizeBound) :
    Proper service.allocator.stats := by
  have total : service.allocator.stats.totalBlocks = geometry.totalBlocks :=
    congrArg Geometry.totalBlocks accounted.geometryEq
  refine ⟨?_, total ▸ someBlock, total ▸ sized⟩
  exact Nat.sub_le ..

theorem Accounted.emptiedStats_total (accounted : Accounted geometry capacity service lost) :
    service.emptiedStats.totalBlocks = geometry.totalBlocks :=
  congrArg Geometry.totalBlocks accounted.geometryEq

theorem Proper.emptied (proper : Proper service.allocator.stats) :
    Proper service.emptiedStats :=
  ⟨(Nat.sub_le ..).trans proper.within, proper.someBlock, proper.sized⟩

/-- Deleting a present key takes its entry out and loses no block. -/
theorem Accounted.delete_key (firstPool : geometry.poolId = 0)
    (accounted : Accounted geometry capacity service lost) {key : PrefixHash}
    (present : key ∈ service.index.map) :
    Accounted geometry capacity (service.delete ⟨key.toBytes⟩).1 lost ∧
      (service.delete ⟨key.toBytes⟩).1.index.len + 1 = service.index.len := by
  have parsed := parsePrefixHash_toBytes key
  obtain ⟨entry, found⟩ := Option.isSome_iff_exists.mp (AList.lookup_isSome.mpr present)
  rcases removed : service.index.remove key with ⟨index, outcome⟩
  have sameEntry : outcome = some entry := by
    rw [← found, ← BlockIndex.remove_snd, removed]
  subst sameEntry
  have deleted := @Accounted.delete_of_present _ _ _ _ accounted ⟨key.toBytes⟩ _ _ _ parsed removed
  rw [accounted.geometryEq, if_pos firstPool, Nat.add_zero] at deleted
  refine ⟨deleted, ?_⟩
  obtain ⟨-, -, oneLess, -⟩ := accounted.remove removed
  have sameMap := @Ledger.map_delete service ⟨key.toBytes⟩ _ parsed
  rw [← BlockIndex.remove_map, removed] at sameMap
  rw [BlockIndex.len, sameMap]
  exact oneLess

/-- Deleting the keys one by one empties the index, frees their blocks and no others. -/
theorem Accounted.exists_deletes (platform : Platform) (thresholds : Thresholds)
    (firstPool : geometry.poolId = 0) (accounted : Accounted geometry capacity service lost) :
    ∃ deletes, Accounted geometry capacity
        (run (next (CacheService.underMonitor platform thresholds)) service deletes) lost ∧
      (run (next (CacheService.underMonitor platform thresholds)) service
        deletes).index.len = 0 := by
  -- one Delete for each entry that is left
  induction entries : service.index.len generalizing service with
  | zero => exact ⟨[], accounted, entries⟩
  | succ fewer inductionHypothesis =>
      have someKey : service.index.map.keys ≠ [] := by
        rw [BlockIndex.len_eq_length_keys] at entries
        exact List.ne_nil_of_length_eq_add_one entries
      obtain ⟨key, present⟩ := List.exists_mem_of_ne_nil _ someKey
      obtain ⟨deleted, oneLess⟩ := accounted.delete_key firstPool present
      obtain ⟨others, emptied⟩ := inductionHypothesis deleted (by omega)
      exact ⟨.request (.delete ⟨key.toBytes⟩) :: others, emptied⟩

end Books

/-! ## An outage -/

/-- An agent that rejects, with so many blocks lost that it rejects even when empty. -/
structure Outage (thresholds : Thresholds) (geometry : Geometry) (capacity : Nat)
    (service : CacheService) : Prop where
  rejecting : pressureReject ≤ service.pressureLevel
  books : ∃ lost, Accounted geometry capacity service lost
  emptied : pressureReject ≤ thresholds.level service.emptiedStats

/-- Only the blocks in use and the size of the pool are read. -/
theorem Thresholds.level_congr (thresholds : Thresholds) {left right : PoolStats}
    (sameTotal : left.totalBlocks = right.totalBlocks)
    (sameUsed : left.usedBlocks = right.usedBlocks) :
    thresholds.level left = thresholds.level right := by
  have sameUsage : usage left = usage right := by
    rw [usage, usage, sameTotal, sameUsed]
  simp only [level, sameUsage]

section Outages

variable {thresholds : Thresholds} {geometry : Geometry} {capacity : Nat} {service : CacheService}

/-- Whatever happens in an outage, no Store succeeds and the outage goes on. -/
theorem Outage.step (platform : Platform) (valid : thresholds.Valid)
    (someBlock : 0 < geometry.totalBlocks) (sized : geometry.totalBlocks < usizeBound)
    (outage : Outage thresholds geometry capacity service) (event : MonitoredEvent) :
    isStored (service.underMonitor platform thresholds event).2 = false ∧
      Outage thresholds geometry capacity (service.underMonitor platform thresholds event).1 := by
  obtain ⟨lost, accounted⟩ := outage.books
  obtain ⟨more, after, -⟩ := accounted.react platform (event.event thresholds service)
  have emptiedAfter : pressureReject ≤ thresholds.level
      (service.underMonitor platform thresholds event).1.emptiedStats := by
    refine UInt8.le_trans outage.emptied
      (valid.level_mono (after.proper someBlock sized).emptied ?_ ?_)
    · rw [accounted.emptiedStats_total]
      exact after.emptiedStats_total.symm
    · rw [accounted.emptiedStats_used]
      exact (Nat.le_add_right lost more).trans_eq after.emptiedStats_used.symm
  have level : isStored (service.underMonitor platform thresholds event).2 = false ∧
      pressureReject ≤ (service.underMonitor platform thresholds event).1.pressureLevel := by
    cases event with
    | tick =>
        refine ⟨rfl, UInt8.le_trans outage.emptied
          (valid.level_mono (accounted.proper someBlock sized) rfl ?_)⟩
        exact Nat.sub_le ..
    | remote contents => exact ⟨rfl, outage.rejecting⟩
    | request request =>
        refine ⟨?_, (service.handle_pressureLevel platform request).symm ▸ outage.rejecting⟩
        cases request with
        | store now stream =>
            have refused := CacheService.store_of_rejecting platform outage.rejecting now stream
            simp only [CacheService.underMonitor, MonitoredEvent.event, CacheService.react,
              CacheService.handle, refused, Prod.map, isStored]
        | _ => rfl
  exact ⟨level.1, level.2, ⟨_, after⟩, emptiedAfter⟩

theorem Outage.no_store (platform : Platform) (valid : thresholds.Valid)
    (someBlock : 0 < geometry.totalBlocks) (sized : geometry.totalBlocks < usizeBound)
    (outage : Outage thresholds geometry capacity service) (events : List MonitoredEvent) :
    ∀ answer ∈ outputs (CacheService.underMonitor platform thresholds) service events,
      isStored answer = false := by
  induction events generalizing service with
  | nil => exact fun answer none => absurd none List.not_mem_nil
  | cons event rest inductionHypothesis =>
      obtain ⟨notStored, after⟩ := outage.step platform valid someBlock sized event
      exact List.forall_mem_cons.mpr ⟨notStored, inductionHypothesis after⟩

/-- Delete every key, wait for a tick, and a Store succeeds. -/
theorem Accounted.exists_store (platform : Platform) (valid : thresholds.Valid)
    (headerFits : BlockHeader.size ≤ geometry.blockSize) (firstPool : geometry.poolId = 0)
    (someBlock : 0 < geometry.totalBlocks) (sized : geometry.totalBlocks < usizeBound) {lost : Nat}
    (accounted : Accounted geometry capacity service lost)
    (calm : thresholds.level service.emptiedStats < pressureReject) :
    ∃ events, ∃ answer ∈ outputs (CacheService.underMonitor platform thresholds) service events,
      isStored answer = true := by
  obtain ⟨deletes, emptied, noEntries⟩ := accounted.exists_deletes platform thresholds firstPool
  set step := CacheService.underMonitor platform thresholds
  set after := run (next step) service deletes
  have used : after.allocator.stats.usedBlocks = lost := by
    rw [emptied.usedBlocks_eq, noEntries, Nat.zero_add]
  have total : after.allocator.stats.totalBlocks = geometry.totalBlocks :=
    congrArg Geometry.totalBlocks emptied.geometryEq
  have lowered : thresholds.level after.allocator.stats < pressureReject := by
    rwa [thresholds.level_congr (total.trans accounted.emptiedStats_total.symm)
      (used.trans accounted.emptiedStats_used.symm)]
  have available : after.allocator.pool.freeList ≠ [] := by
    intro exhausted
    have full : after.allocator.stats.usedBlocks = after.allocator.stats.totalBlocks := by
      simp only [BlockAllocator.stats, MemoryPool.stats, exhausted, List.length_nil, Nat.sub_zero]
    rw [valid.level_full (emptied.proper someBlock sized) full] at lowered
    exact absurd lowered (by decide)
  let ticked : CacheService := (step after .tick).1
  let header : StoreHeader := ⟨List.replicate 16 0, 0, ""⟩
  obtain ⟨prefixHash, parsed⟩ := @exists_parsePrefixHash header.prefixHash (by decide)
  have admitted := @CacheService.storeAdmit_storeMessages platform ticked header _ [] lowered parsed
    (Nat.zero_le _)
  have stored := (store_isOk_iff_of_admitted admitted
    (by exact emptied.geometryEq ▸ headerFits) 0).mpr available
  refine ⟨deletes ++ [.tick, .request (.store 0 (storeMessages header []))], ?_⟩
  rw [outputs_append]
  refine ⟨(step ticked (.request (.store 0 (storeMessages header [])))).2,
    List.mem_append_right _ (.tail _ (.head _)), ?_⟩
  exact (isStored_store _).trans stored

/-- An agent that reports itself unhealthy takes a Store again, in some continuation of
its run, exactly when the blocks that overwrites and evictions have lost do not reach the
reject threshold by themselves. Otherwise no requests and no ticks end the outage: the
blocks in use are the entries and the lost ones, and a Delete frees only the former. -/
theorem unhealthy_stores_again_iff (platform : Platform) (valid : thresholds.Valid)
    (headerFits : BlockHeader.size ≤ geometry.blockSize) (firstPool : geometry.poolId = 0)
    (someBlock : 0 < geometry.totalBlocks) (sized : geometry.totalBlocks < usizeBound)
    (capacity : Nat) (nodeId : String) (metadata : Bool) (remoteIndex : Option RemoteIndex)
    (events : List MonitoredEvent) (uptimeSeconds : UInt64) :
    let step := CacheService.underMonitor platform thresholds
    let service := run (next step) (CacheService.new geometry capacity nodeId metadata remoteIndex)
      events
    (service.health uptimeSeconds).healthy = false →
      ((∃ continuation, ∃ answer ∈ outputs step service continuation, isStored answer = true) ↔
        thresholds.level service.emptiedStats < pressureReject) := by
  intro step service unhealthy
  have books : ∃ lost, Accounted geometry capacity service lost := by
    refine @run_invariant _ _ (next step) (fun service => ∃ lost, Accounted geometry capacity service
      lost) ?_ _ ⟨0, new_accounted geometry capacity nodeId metadata remoteIndex⟩ events
    rintro service event ⟨lost, accounted⟩
    obtain ⟨more, after, -⟩ := accounted.react platform (event.event thresholds service)
    exact ⟨_, after⟩
  constructor
  · rintro ⟨continuation, answer, given, stored⟩
    by_contra high
    have outage : Outage thresholds geometry capacity service :=
      ⟨(service.health_healthy _).mp unhealthy, books, UInt8.not_lt.mp high⟩
    rw [outage.no_store platform valid someBlock sized continuation answer given] at stored
    exact absurd stored Bool.false_ne_true
  · intro calm
    obtain ⟨lost, accounted⟩ := books
    exact accounted.exists_store platform valid headerFits firstPool someBlock sized calm

end Outages

/-- Half of a pool of two blocks rejects; two Stores of one key and a tick end all
Stores, and deleting the key does not help. -/
theorem overwrite_ends_stores :
    let thresholds : Thresholds := ⟨F64.zero, ⟨0x3FD0000000000000⟩, ⟨0x3FE0000000000000⟩⟩
    let store : MonitoredEvent :=
      .request (.store 0 (storeMessages ⟨List.replicate 16 1, 1, ""⟩ [[7]]))
    let step := CacheService.underMonitor Platform.release thresholds
    let service := run (next step) (CacheService.new Geometry.twoBlocks 2 "node" false none)
      [store, store, .tick, .request (.delete ⟨List.replicate 16 1⟩), .tick]
    (service.health 0).healthy = false ∧ service.index.len = 0 ∧
      ¬ ∃ continuation, ∃ answer ∈ outputs step service continuation, isStored answer = true := by
  intro thresholds store step service
  have unhealthy : (service.health 0).healthy = false := by decide +kernel
  have valid : thresholds.Valid := ⟨by decide +kernel, by decide, by decide⟩
  have exact := unhealthy_stores_again_iff .release valid (by decide) rfl (by decide) (by decide)
    2 "node" false none [store, store, .tick, .request (.delete ⟨List.replicate 16 1⟩), .tick] 0
    unhealthy
  refine ⟨unhealthy, by decide +kernel, fun again => ?_⟩
  exact absurd (exact.mp again) (by decide +kernel)

end CmxRdma.Agent
