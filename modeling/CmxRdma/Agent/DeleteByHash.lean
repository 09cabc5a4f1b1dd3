import CmxRdma.Agent.Conservation
import CmxRdma.Agent.Retention

/-!
Contract: deleting the entry of a model by its prefix hash.

Owns: the record of which prefix hash each entry was stored with, that the index
only holds recorded entries, and the exact entries a Delete of a prefix hash
frees as asked.

Does not own: who may delete; the request carries a prefix hash and no model.
-/

namespace CmxRdma.Agent

open CmxRdma.BlockStore
open CmxRdma.Lib.Transition
open CmxRdma.Memory
open CmxRdma.Proto

/-! ## What the entries were stored as -/

/-- The prefix hash in the header of a Store. -/
def sentHash (stream : StoreStream) : Option PrefixHash :=
  match CacheService.readHeader stream with
  | .error _ => none
  | .ok (header, _) => (parsePrefixHash header.prefixHash).toOption

/-- A service with the prefix hash its last successful Store under each key was
sent with. -/
structure Ledger where
  service : CacheService
  storedAs : PrefixHash → Option PrefixHash

namespace Ledger

def new (geometry : Geometry) (capacity : Nat) (nodeId : String) (metadata : Bool)
    (remoteIndex : Option RemoteIndex) : Ledger where
  service := CacheService.new geometry capacity nodeId metadata remoteIndex
  storedAs := fun _ => none

/-- The record after an event: a Store that succeeds is noted under its key. -/
def noted (platform : Platform) (ledger : Ledger) : Event → PrefixHash → Option PrefixHash
  | .request (.store now stream) =>
      match ledger.service.storeAdmit platform stream with
      | .error _ => ledger.storedAs
      | .ok (key, _) =>
          if (ledger.service.store platform now stream).2.isOk then
            Function.update ledger.storedAs key (sentHash stream)
          else ledger.storedAs
  | _ => ledger.storedAs

def step (platform : Platform) (ledger : Ledger) (event : Event) : Ledger where
  service := next (CacheService.react platform) ledger.service event
  storedAs := ledger.noted platform event

theorem service_run (platform : Platform) (ledger : Ledger) (events : List Event) :
    (run (step platform) ledger events).service =
      run (next (CacheService.react platform)) ledger.service events := by
  induction events generalizing ledger with
  | nil => rfl
  | cons event rest inductionHypothesis => exact inductionHypothesis (ledger.step platform event)

/-- Every entry is under the composite key of the hash it was stored with. -/
def Recorded (platform : Platform) (ledger : Ledger) : Prop :=
  ∀ key ∈ ledger.service.index.map, ∃ modelId prefixHash,
    ledger.storedAs key = some prefixHash ∧ compositeKey platform modelId prefixHash = key

section Steps

variable {platform : Platform} {ledger : Ledger}

theorem Recorded.of_keys (recorded : ledger.Recorded platform) {after : Ledger}
    (fewer : ∀ key ∈ after.service.index.map, key ∈ ledger.service.index.map)
    (sameRecord : after.storedAs = ledger.storedAs) : after.Recorded platform := by
  intro key present
  rw [sameRecord]
  exact recorded key (fewer key present)

/-- A Store that does not succeed leaves the index alone. -/
theorem index_store_of_failed {service : CacheService} {now : UInt64} {stream : StoreStream}
    (failed : ¬ (service.store platform now stream).2.isOk) :
    (service.store platform now stream).1.index = service.index := by
  cases admitted : service.storeAdmit platform stream with
  | error failure => rw [CacheService.store_of_not_admitted admitted]
  | ok pair =>
      obtain ⟨key, data⟩ := pair
      rcases outcome : service.allocator.allocateAndWrite platform data with ⟨allocator, result⟩
      rcases result with panic | refused | ⟨location, handle⟩
      · rw [CacheService.store_of_panic admitted outcome]
      · rw [CacheService.store_of_refused admitted outcome]
      · rw [CacheService.store_of_written admitted outcome] at failed
        exact absurd rfl failed

/-- A Delete takes out at most the entry under its hash. -/
theorem map_delete {service : CacheService} {request : DeleteRequest} {prefixHash : PrefixHash}
    (parsed : parsePrefixHash request.prefixHash = .ok prefixHash) :
    (service.delete request).1.index.map = service.index.map.erase prefixHash := by
  rw [← service.index.remove_map prefixHash]
  simp only [CacheService.delete, parsed]
  split
  · rename_i removed
    rw [removed]
  · rename_i removed
    rw [removed]
    split <;> rfl

theorem mem_of_mem_delete {service : CacheService} {request : DeleteRequest} {key : PrefixHash}
    (present : key ∈ (service.delete request).1.index.map) : key ∈ service.index.map := by
  cases parsed : parsePrefixHash request.prefixHash with
  | error status =>
      rwa [CacheService.delete_of_rejected parsed] at present
  | ok prefixHash =>
      rw [map_delete parsed] at present
      exact (AList.mem_erase.mp present).2

theorem Recorded.store (recorded : ledger.Recorded platform) (now : UInt64)
    (stream : StoreStream) :
    (ledger.step platform (.request (.store now stream))).Recorded platform := by
  by_cases succeeds : (ledger.service.store platform now stream).2.isOk
  · cases admitted : ledger.service.storeAdmit platform stream with
    | error failure =>
        rw [CacheService.store_of_not_admitted admitted] at succeeds
        cases succeeds
    | ok pair =>
        obtain ⟨stored, data⟩ := pair
        intro key present
        simp only [step, noted, admitted, if_pos succeeds]
        by_cases same : key = stored
        · obtain ⟨header, rest, prefixHash, read, parsed, -, -, keyEq⟩ :=
            CacheService.storeAdmit_eq_ok admitted
          refine ⟨header.modelId, prefixHash, ?_, same ▸ keyEq.symm⟩
          rw [same, Function.update_self, sentHash, read]
          simp only [parsed]
          rfl
        · obtain ⟨entry, found⟩ := Option.isSome_iff_exists.mp (AList.lookup_isSome.mpr present)
          have before := lookup_of_lookup_store admitted succeeds same found
          rw [Function.update_of_ne same]
          exact recorded key (AList.lookup_isSome.mp (by rw [before]; rfl))
  · refine recorded.of_keys ?_ ?_
    · intro key present
      have sameIndex := index_store_of_failed succeeds
      rwa [← sameIndex]
    · simp only [step, noted, if_neg succeeds]
      split <;> rfl

theorem step_recorded (recorded : ledger.Recorded platform) (event : Event) :
    (ledger.step platform event).Recorded platform := by
  cases event with
  | pressure level => exact recorded.of_keys (fun _ present => present) rfl
  | remote contents => exact recorded.of_keys (fun _ present => present) rfl
  | request request =>
      cases request with
      | store now stream => exact recorded.store now stream
      | delete request =>
          refine recorded.of_keys ?_ rfl
          intro key present
          exact mem_of_mem_delete present
      | lookup request =>
          refine recorded.of_keys ?_ rfl
          intro key present
          rwa [← (lookup_touched request).2.map_eq]
      | batchLookup request =>
          refine recorded.of_keys ?_ rfl
          intro key present
          rwa [← (batchLookupFrom_touched request.prefixHashes [] []).2.map_eq]
      | get request =>
          refine recorded.of_keys ?_ rfl
          intro key present
          rwa [← (get_touched request).2.map_eq]

end Steps

/-- Along every run the index holds only what the record accounts for. -/
theorem run_recorded (platform : Platform) (geometry : Geometry) (capacity : Nat)
    (nodeId : String) (metadata : Bool) (remoteIndex : Option RemoteIndex)
    (events : List Event) :
    (run (step platform) (new geometry capacity nodeId metadata remoteIndex) events).Recorded
      platform := by
  refine @run_invariant _ _ (step platform) (Recorded platform)
    (fun _ event recorded => step_recorded recorded event) _ ?_ events
  intro key present
  exact absurd present (AList.notMem_empty key)

/-- An entry under a hash that is nobody's digest was stored with that hash. -/
theorem Recorded.storedAs_self {platform : Platform} {ledger : Ledger}
    (recorded : ledger.Recorded platform) {prefixHash : PrefixHash}
    (present : prefixHash ∈ ledger.service.index.map)
    (noDigest : ∀ modelId other, modelId.isEmpty = false →
      platform.sha256Truncated (utf8 modelId ++ PrefixHash.toBytes other) ≠ prefixHash) :
    ledger.storedAs prefixHash = some prefixHash := by
  obtain ⟨modelId, other, stored, keyEq⟩ := recorded prefixHash present
  rw [compositeKey] at keyEq
  split at keyEq
  · rw [stored, keyEq]
  · rename_i named
    exact absurd keyEq (noDigest modelId other (by simpa using named))

end Ledger

/-! ## Deleting by hash -/

/-- Lookup answers from the agent's own index. -/
def LocalHit (platform : Platform) (service : CacheService) (modelId : String)
    (prefixHash : PrefixHash) : Prop :=
  ∃ response, (service.lookup platform ⟨prefixHash.toBytes, modelId⟩).2 = .ok response ∧
    response.found = true ∧ response.isLocal = true

theorem localHit_iff (platform : Platform) (service : CacheService) (modelId : String)
    (prefixHash : PrefixHash) :
    LocalHit platform service modelId prefixHash ↔
      compositeKey platform modelId prefixHash ∈ service.index.map := by
  rw [LocalHit, CacheService.lookup_answer, ← AList.lookup_isSome]
  cases service.index.map.lookup (compositeKey platform modelId prefixHash) with
  | some entry => simp
  | none =>
      cases service.remoteFirst (compositeKey platform modelId prefixHash) <;> simp

/-- Delete of the prefix hash succeeds, the model's Lookup of it is no local hit
any more, and no entry stored with another prefix hash is gone. -/
def DeletesEntry (platform : Platform) (ledger : Ledger) (modelId : String)
    (prefixHash : PrefixHash) : Prop :=
  let reply := ledger.service.delete ⟨prefixHash.toBytes⟩
  (∃ freed, reply.2 = .ok ⟨true, freed⟩) ∧ ¬ LocalHit platform reply.1 modelId prefixHash ∧
    ∀ key ∈ ledger.service.index.map, key ∉ reply.1.index.map →
      ledger.storedAs key = some prefixHash

/-- A Delete of a hash reports success exactly when the hash is a key of the index
and the pool is the one Delete frees with. -/
theorem Accounted.delete_succeeds_iff {geometry : Geometry} {capacity lost : Nat}
    {service : CacheService} (accounted : Accounted geometry capacity service lost)
    (prefixHash : PrefixHash) :
    (∃ freed, (service.delete ⟨prefixHash.toBytes⟩).2 = .ok ⟨true, freed⟩) ↔
      prefixHash ∈ service.index.map ∧ geometry.poolId = 0 := by
  have parsed := parsePrefixHash_toBytes prefixHash
  have removedEntry := service.index.remove_snd prefixHash
  rcases removed : service.index.remove prefixHash with ⟨index, found⟩
  rw [removed] at removedEntry
  rw [← AList.lookup_isSome, ← removedEntry, ← accounted.geometryEq]
  cases found with
  | none =>
      rw [@CacheService.delete_of_absent service ⟨prefixHash.toBytes⟩ _ _ parsed removed]
      simp
  | some entry =>
      obtain ⟨location, single, inPool⟩ := accounted.single prefixHash entry removedEntry.symm
      by_cases samePool : service.allocator.pool.geometry.poolId = 0
      · obtain ⟨pool, -, freed⟩ := @BlockAllocator.exists_deallocate service.allocator
          (CacheService.localHandle location) samePool.symm (accounted.geometryEq ▸ inPool)
        rw [@CacheService.delete_of_freed service ⟨prefixHash.toBytes⟩ _ _ _ _ _ parsed removed
          single freed]
        simp [samePool]
      · rw [@CacheService.delete_of_panic service ⟨prefixHash.toBytes⟩ _ _ _ _ _ parsed removed
          single (BlockAllocator.deallocate_of_other_pool (Ne.symm samePool))]
        simp [samePool]

/-- In every reachable state, the entry a model finds under a prefix hash is
deleted by that hash exactly when its key is the hash itself, as without a model,
the pool is the first of its process, and the entry was stored with that hash
rather than with another one whose digest it is. -/
theorem delete_by_hash_iff (platform : Platform) (geometry : Geometry) (capacity : Nat)
    (nodeId : String) (metadata : Bool) (remoteIndex : Option RemoteIndex)
    (events : List Event) (modelId : String) (prefixHash : PrefixHash) (ledger : Ledger)
    (reached : run (Ledger.step platform)
      (Ledger.new geometry capacity nodeId metadata remoteIndex) events = ledger)
    (hit : LocalHit platform ledger.service modelId prefixHash) :
    DeletesEntry platform ledger modelId prefixHash ↔
      compositeKey platform modelId prefixHash = prefixHash ∧ geometry.poolId = 0 ∧
        ledger.storedAs prefixHash = some prefixHash := by
  have sameService := Ledger.service_run platform
    (Ledger.new geometry capacity nodeId metadata remoteIndex) events
  rw [reached] at sameService
  obtain ⟨lost, accounted⟩ : ∃ lost, Accounted geometry capacity ledger.service lost := by
    rw [sameService]
    exact exists_accounted platform geometry capacity nodeId metadata remoteIndex events
  have erased := @Ledger.map_delete ledger.service ⟨prefixHash.toBytes⟩ prefixHash
    (parsePrefixHash_toBytes prefixHash)
  rw [localHit_iff] at hit
  simp only [DeletesEntry, accounted.delete_succeeds_iff, localHit_iff, erased, AList.mem_erase]
  constructor
  · rintro ⟨⟨present, firstPool⟩, gone, onlyOwn⟩
    refine ⟨?_, firstPool, onlyOwn prefixHash present (by simp)⟩
    by_contra different
    exact gone ⟨different, hit⟩
  · rintro ⟨sameKey, firstPool, stored⟩
    refine ⟨⟨sameKey ▸ hit, firstPool⟩, fun found => found.1 sameKey, ?_⟩
    intro key present gone
    obtain rfl : key = prefixHash := by
      by_contra different
      exact gone ⟨different, present⟩
    exact stored

/-- Without a model the entry is deleted. -/
theorem delete_by_hash_without_model :
    let store : Event := .request (.store 0 (storeMessages ⟨List.replicate 16 1, 1, ""⟩ [[7]]))
    let ledger := run (Ledger.step Platform.release)
      (Ledger.new Geometry.twoBlocks 2 "node" false none) [store]
    DeletesEntry Platform.release ledger "" (.ofByte 1) := by
  intro store ledger
  have hit : LocalHit Platform.release ledger.service "" (.ofByte 1) := by
    rw [localHit_iff]
    decide +kernel
  exact (delete_by_hash_iff Platform.release Geometry.twoBlocks 2 "node" false none [store] ""
    (.ofByte 1) ledger rfl hit).mpr ⟨rfl, rfl, by decide +kernel⟩

/-- An entry stored under a model outlives the Delete of its prefix hash. -/
theorem delete_misses_model_entry :
    let store : Event := .request (.store 0 (storeMessages ⟨List.replicate 16 1, 1, "m"⟩ [[7]]))
    let ledger := run (Ledger.step Platform.release)
      (Ledger.new Geometry.twoBlocks 2 "node" false none) [store]
    let reply := ledger.service.delete ⟨List.replicate 16 1⟩
    LocalHit Platform.release ledger.service "m" (.ofByte 1) ∧ reply.2 = .ok ⟨false, 0⟩ ∧
      LocalHit Platform.release reply.1 "m" (.ofByte 1) ∧
      ¬ DeletesEntry Platform.release ledger "m" (.ofByte 1) := by
  intro store ledger reply
  -- one evaluation of the Store serves all three facts
  obtain ⟨present, refused, stillPresent⟩ :
      compositeKey Platform.release "m" (.ofByte 1) ∈ ledger.service.index.map ∧
        reply.2 = .ok ⟨false, 0⟩ ∧
        compositeKey Platform.release "m" (.ofByte 1) ∈ reply.1.index.map := by decide +kernel
  have hit := (localHit_iff Platform.release ledger.service "m" (.ofByte 1)).mpr present
  have stillHit := (localHit_iff Platform.release reply.1 "m" (.ofByte 1)).mpr stillPresent
  exact ⟨hit, refused, stillHit, fun deletes => deletes.2.1 stillHit⟩

end CmxRdma.Agent
