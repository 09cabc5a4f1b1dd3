import Mathlib.Data.List.Forall2
import CmxRdma.Agent.Conservation
import CmxRdma.Agent.Retention

/-!
Contract: BatchLookup against the single Lookups it stands for.

Owns: the loop of `batch_lookup` as a run of local lookups, the batches that
answer and count as successive Lookups do, which block of the reply belongs to
which hash, and the rejected batches that leave the agent as it was.

Does not own: the remote index, which the loop never reads.
-/

namespace CmxRdma.Agent

open CmxRdma.BlockStore
open CmxRdma.Lib.Transition
open CmxRdma.Memory
open CmxRdma.Proto

namespace CacheService

/-! ## The loop as a run -/

/-- What the loop does with one well-formed hash. -/
def lookupLocal (platform : Platform) (modelId : String) (service : CacheService)
    (prefixHash : PrefixHash) : CacheService × Option IndexEntry :=
  let looked := service.index.lookup (compositeKey platform modelId prefixHash)
  let moved := { service with index := looked.1 }
  (if looked.2.isSome then moved.countHit else moved.countMiss, looked.2)

/-- The blocks the loop reports for one hash. -/
def foundBlocks (service : CacheService) (entry : Option IndexEntry) : List Proto.BlockLocation :=
  (entry.map fun entry => entry.blocks.map service.protoLocation).getD []

section Local

variable (platform : Platform) (modelId : String) (service : CacheService)
  (prefixHash : PrefixHash)

theorem lookupLocal_snd :
    (lookupLocal platform modelId service prefixHash).2 =
      service.index.map.lookup (compositeKey platform modelId prefixHash) :=
  service.index.lookup_snd (compositeKey platform modelId prefixHash)

/-- A local lookup keeps the map and the remote index. -/
theorem lookupLocal_frame :
    let after := (lookupLocal platform modelId service prefixHash).1
    after.index.map = service.index.map ∧ after.remoteIndex = service.remoteIndex := by
  have sameMap := service.index.lookup_map (compositeKey platform modelId prefixHash)
  simp only [lookupLocal]
  split <;> exact ⟨sameMap, rfl⟩

/-- The loop goes on with what a local lookup leaves. -/
theorem batchLookupFrom_cons (rest : List (List UInt8)) (found : List Bool)
    (blocks : List Proto.BlockLocation) :
    let reply := lookupLocal platform modelId service prefixHash
    batchLookupFrom platform modelId service (prefixHash.toBytes :: rest) found blocks =
      batchLookupFrom platform modelId reply.1 rest (found ++ [reply.2.isSome])
        (blocks ++ service.foundBlocks reply.2) := by
  simp only [batchLookupFrom, parsePrefixHash_toBytes, lookupLocal]
  rcases service.index.lookup (compositeKey platform modelId prefixHash) with ⟨index, _ | entry⟩
  · simp [foundBlocks]
  · simp [foundBlocks]

end Local

/-- The well-formed hashes at the front of a batch are looked up one after the
other; flags and blocks pile up behind what was collected before. -/
theorem batchLookupFrom_append (platform : Platform) (modelId : String) (service : CacheService)
    (hashes : List PrefixHash) (rest : List (List UInt8)) (found : List Bool)
    (blocks : List Proto.BlockLocation) :
    let entries := outputs (lookupLocal platform modelId) service hashes
    batchLookupFrom platform modelId service (hashes.map PrefixHash.toBytes ++ rest) found blocks =
      batchLookupFrom platform modelId (run (next (lookupLocal platform modelId)) service hashes)
        rest (found ++ entries.map Option.isSome)
        (blocks ++ entries.flatMap service.foundBlocks) := by
  induction hashes generalizing service found blocks with
  | nil => simp [outputs]
  | cons prefixHash others inductionHypothesis =>
      have sameLocations : (lookupLocal platform modelId service prefixHash).1.foundBlocks =
          service.foundBlocks := by
        simp only [lookupLocal]
        split <;> rfl
      intro entries
      rw [List.map_cons, List.cons_append, batchLookupFrom_cons, inductionHypothesis,
        sameLocations, List.append_assoc, List.append_assoc]
      rfl

theorem batchLookup_hashes (platform : Platform) (modelId : String) (service : CacheService)
    (hashes : List PrefixHash) :
    let entries := outputs (lookupLocal platform modelId) service hashes
    service.batchLookup platform ⟨hashes.map PrefixHash.toBytes, modelId⟩ =
      (run (next (lookupLocal platform modelId)) service hashes,
        .ok ⟨entries.map Option.isSome, entries.flatMap service.foundBlocks⟩) := by
  intro entries
  have looped := batchLookupFrom_append platform modelId service hashes [] [] []
  rwa [List.append_nil] at looped

/-- Every local lookup of a run finds what the index held at its start. -/
theorem outputs_lookupLocal (platform : Platform) (modelId : String) (service : CacheService)
    (hashes : List PrefixHash) :
    outputs (lookupLocal platform modelId) service hashes =
      hashes.map fun prefixHash =>
        service.index.map.lookup (compositeKey platform modelId prefixHash) := by
  induction hashes generalizing service with
  | nil => rfl
  | cons prefixHash rest inductionHypothesis =>
      rw [outputs, inductionHypothesis, lookupLocal_snd, next,
        (lookupLocal_frame platform modelId service prefixHash).1, List.map_cons]

/-! ## Against single Lookups -/

/-- The Lookup of a well-formed hash. -/
def lookupHash (platform : Platform) (modelId : String) (service : CacheService)
    (prefixHash : PrefixHash) : CacheService × Except Status LookupResponse :=
  service.lookup platform ⟨prefixHash.toBytes, modelId⟩

/-- The batch answers the flags of the single Lookups issued one after the other
from the same state, and leaves the index, its recency order and the counters as
they do. -/
def BatchAgrees (platform : Platform) (modelId : String) (service : CacheService)
    (hashes : List PrefixHash) : Prop :=
  let batch := service.batchLookup platform ⟨hashes.map PrefixHash.toBytes, modelId⟩
  let singles := run (next (lookupHash platform modelId)) service hashes
  (∃ response, batch.2 = .ok response ∧ response.found.map .ok =
      (outputs (lookupHash platform modelId) service hashes).map
        (Except.map LookupResponse.found)) ∧
    batch.1.index = singles.index ∧ batch.1.cacheHits = singles.cacheHits ∧
    batch.1.cacheMisses = singles.cacheMisses

/-- The local index has the key, or no other node is known to have it. -/
def AnsweredLocally (platform : Platform) (modelId : String) (service : CacheService)
    (prefixHash : PrefixHash) : Prop :=
  compositeKey platform modelId prefixHash ∈ service.index.map ∨
    service.remoteFirst (compositeKey platform modelId prefixHash) = none

section Single

variable {platform : Platform} {modelId : String} {service : CacheService}
  {prefixHash : PrefixHash}

/-- A Lookup that is answered locally is the loop's local lookup. -/
theorem lookupHash_of_local (answered : AnsweredLocally platform modelId service prefixHash) :
    (lookupHash platform modelId service prefixHash).1 =
        (lookupLocal platform modelId service prefixHash).1 ∧
      (lookupHash platform modelId service prefixHash).2.map LookupResponse.found =
        .ok (lookupLocal platform modelId service prefixHash).2.isSome := by
  rw [AnsweredLocally, ← AList.lookup_isSome, ← BlockIndex.lookup_snd] at answered
  simp only [lookupHash, lookup, parsePrefixHash_toBytes, lookupLocal]
  rcases outcome : service.index.lookup (compositeKey platform modelId prefixHash) with
    ⟨index, _ | entry⟩
  · rw [outcome] at answered
    have vacant : ({ service with index := index } : CacheService).remoteFirst
        (compositeKey platform modelId prefixHash) = none := answered.resolve_left (by simp)
    simp only [vacant]
    exact ⟨rfl, rfl⟩
  · exact ⟨rfl, rfl⟩

/-- Otherwise it finds the key where the loop does not look. -/
theorem lookupHash_of_remote (elsewhere : ¬ AnsweredLocally platform modelId service prefixHash) :
    (lookupHash platform modelId service prefixHash).2.map LookupResponse.found = .ok true ∧
      (lookupLocal platform modelId service prefixHash).2.isSome = false := by
  rw [AnsweredLocally, not_or, ← AList.lookup_isSome] at elsewhere
  obtain ⟨first, announced⟩ := Option.ne_none_iff_exists'.mp elsewhere.2
  have missing : service.index.map.lookup (compositeKey platform modelId prefixHash) = none := by
    simpa using elsewhere.1
  rw [lookupHash, lookup_answer, lookupLocal_snd, missing, announced]
  exact ⟨rfl, rfl⟩

/-- Which hashes are answered locally does not change along a batch. -/
theorem answeredLocally_lookupLocal (other : PrefixHash) :
    AnsweredLocally platform modelId (lookupLocal platform modelId service prefixHash).1 other ↔
      AnsweredLocally platform modelId service other := by
  obtain ⟨sameMap, sameRemote⟩ := lookupLocal_frame platform modelId service prefixHash
  rw [AnsweredLocally, AnsweredLocally, remoteFirst, remoteFirst, sameMap, sameRemote]

end Single

/-- BatchLookup agrees with the single Lookups exactly when every hash is answered
locally: the loop never reads the remote index. -/
theorem batchLookup_agrees_iff (platform : Platform) (modelId : String) (service : CacheService)
    (hashes : List PrefixHash) :
    BatchAgrees platform modelId service hashes ↔
      ∀ prefixHash ∈ hashes, AnsweredLocally platform modelId service prefixHash := by
  simp only [BatchAgrees, batchLookup_hashes, Except.ok.injEq, exists_eq_left']
  induction hashes generalizing service with
  | nil => simp [outputs]
  | cons prefixHash rest inductionHypothesis =>
      simp only [outputs, List.map_cons, List.cons.injEq, run_cons, List.forall_mem_cons]
      by_cases answered : AnsweredLocally platform modelId service prefixHash
      · obtain ⟨sameState, sameFlag⟩ := lookupHash_of_local answered
        have later := inductionHypothesis (lookupLocal platform modelId service prefixHash).1
        simp only [answeredLocally_lookupLocal] at later
        rw [sameFlag, next, next, sameState]
        simp only [true_and, answered]
        exact later
      · obtain ⟨foundElsewhere, missedHere⟩ := lookupHash_of_remote answered
        rw [foundElsewhere, missedHere]
        simp [answered]

/-- A key that only another node holds: the batch reports it missing, the Lookup
finds it. -/
theorem batchLookup_misses_remote :
    let remote := RemoteIndex.new.insert (.ofByte 1) ⟨"b", "b:50051", 0, 32, 1⟩
    let service := CacheService.new Geometry.twoBlocks 2 "a" false (some remote)
    (service.batchLookup .release ⟨[(PrefixHash.ofByte 1).toBytes], ""⟩).2 = .ok ⟨[false], []⟩ ∧
      (lookupHash .release "" service (.ofByte 1)).2 = .ok ⟨true, [⟨"b", 0, 32, 1⟩], false⟩ ∧
      ¬ BatchAgrees .release "" service [.ofByte 1] := by
  intro remote service
  have batchAnswer : (service.batchLookup .release ⟨[(PrefixHash.ofByte 1).toBytes], ""⟩).2 =
      .ok ⟨[false], []⟩ := by decide +kernel
  have singleAnswer : (lookupHash .release "" service (.ofByte 1)).2 =
      .ok ⟨true, [⟨"b", 0, 32, 1⟩], false⟩ := by decide +kernel
  refine ⟨batchAnswer, singleAnswer, ?_⟩
  rintro ⟨⟨response, answered, sameFlags⟩, -⟩
  obtain rfl : ⟨[false], []⟩ = response := Except.ok.inj (batchAnswer.symm.trans answered)
  simp [outputs, singleAnswer, Except.map] at sameFlags

/-! ## Which block belongs to which hash -/

/-- The hashes that were found, in order. -/
def foundHashes (hashes : List PrefixHash) (found : List Bool) : List PrefixHash :=
  ((hashes.zip found).filter Prod.snd).map Prod.fst

@[simp] theorem foundHashes_cons_true (prefixHash : PrefixHash) (hashes : List PrefixHash)
    (found : List Bool) :
    foundHashes (prefixHash :: hashes) (true :: found) = prefixHash :: foundHashes hashes found :=
  rfl

@[simp] theorem foundHashes_cons_false (prefixHash : PrefixHash) (hashes : List PrefixHash)
    (found : List Bool) :
    foundHashes (prefixHash :: hashes) (false :: found) = foundHashes hashes found := rfl

theorem length_foundHashes {hashes : List PrefixHash} {found : List Bool}
    (sameLength : found.length = hashes.length) :
    (foundHashes hashes found).length = found.count true := by
  induction hashes generalizing found with
  | nil =>
      obtain rfl := List.length_eq_zero_iff.mp sameLength
      rfl
  | cons prefixHash rest inductionHypothesis =>
      cases found with
      | nil => cases sameLength
      | cons flag others =>
          have shorter := inductionHypothesis (Nat.succ.inj sameLength)
          cases flag with
          | false => simpa using shorter
          | true => simpa using shorter

/-- A Lookup of the hash is answered locally, with the one block. -/
def LocatedAt (platform : Platform) (modelId : String) (service : CacheService)
    (block : Proto.BlockLocation) (prefixHash : PrefixHash) : Prop :=
  (lookupHash platform modelId service prefixHash).2 = .ok ⟨true, [block], true⟩

/-- When every entry has one block, the blocks of the found entries stand in the order of
their hashes. -/
theorem forall₂_foundBlocks {platform : Platform} {modelId : String} {service : CacheService}
    (single : ∀ key entry, service.index.map.lookup key = some entry →
      ∃ location, entry.blocks = [location])
    (hashes : List PrefixHash) :
    let entries := hashes.map fun prefixHash =>
      service.index.map.lookup (compositeKey platform modelId prefixHash)
    List.Forall₂ (LocatedAt platform modelId service) (entries.flatMap service.foundBlocks)
      (foundHashes hashes (entries.map Option.isSome)) := by
  induction hashes with
  | nil => exact List.Forall₂.nil
  | cons prefixHash rest inductionHypothesis =>
      simp only [List.map_cons, List.flatMap_cons]
      cases looked : service.index.map.lookup (compositeKey platform modelId prefixHash) with
      | none => exact inductionHypothesis
      | some entry =>
          obtain ⟨location, oneBlock⟩ := single _ entry looked
          have located : LocatedAt platform modelId service (service.protoLocation location)
              prefixHash := by
            rw [LocatedAt, lookupHash, lookup_answer, looked]
            simp [oneBlock]
          have blocks : service.foundBlocks (some entry) = [service.protoLocation location] := by
            simp [foundBlocks, oneBlock]
          rw [blocks]
          exact List.Forall₂.cons located inductionHypothesis

/-- The flat block list of BatchLookup can be decoded: whatever an agent has handled,
the reply to a batch of well-formed hashes has a flag for each hash and a block for each
true flag, and the j-th block is what a local Lookup of the hash at the j-th true flag
returns. -/
theorem batchLookup_decodable (platform : Platform) (geometry : Geometry) (capacity : Nat)
    (nodeId : String) (metadata : Bool) (remoteIndex : Option RemoteIndex) (events : List Event)
    (modelId : String) (hashes : List PrefixHash) :
    let service := run (next (CacheService.react platform))
      (CacheService.new geometry capacity nodeId metadata remoteIndex) events
    ∃ response, (service.batchLookup platform ⟨hashes.map PrefixHash.toBytes, modelId⟩).2 =
        .ok response ∧
      response.found.length = hashes.length ∧
      response.blocks.length = response.found.count true ∧
      List.Forall₂ (LocatedAt platform modelId service) response.blocks
        (foundHashes hashes response.found) := by
  intro service
  obtain ⟨lost, accounted⟩ := exists_accounted platform geometry capacity nodeId metadata
    remoteIndex events
  have single : ∀ key entry, service.index.map.lookup key = some entry →
      ∃ location, entry.blocks = [location] := by
    intro key entry found
    obtain ⟨location, oneBlock, -⟩ := accounted.single key entry found
    exact ⟨location, oneBlock⟩
  have decoded := @forall₂_foundBlocks platform modelId service single hashes
  rw [batchLookup_hashes, outputs_lookupLocal]
  refine ⟨_, rfl, by simp, ?_, decoded⟩
  rw [decoded.length_eq, length_foundHashes (by simp)]

/-! ## Rejected batches -/

/-- Nothing of the recency order and the two counters changed. -/
def SameRecency (before after : CacheService) : Prop :=
  after.index.lru.keys = before.index.lru.keys ∧ after.cacheHits = before.cacheHits ∧
    after.cacheMisses = before.cacheMisses

/-- Every list of byte strings is well-formed hashes up to its end or up to its
first malformed element. -/
theorem exists_wellFormed_front (rawHashes : List (List UInt8)) :
    ∃ (hashes : List PrefixHash) (rest : List (List UInt8)),
      rawHashes = hashes.map PrefixHash.toBytes ++ rest ∧
        ∀ raw ∈ rest.head?, raw.length ≠ 16 := by
  induction rawHashes with
  | nil => exact ⟨[], [], rfl, by simp⟩
  | cons raw others inductionHypothesis =>
      by_cases sized : raw.length = 16
      · obtain ⟨hashes, rest, split, malformed⟩ := inductionHypothesis
        refine ⟨⟨raw.toArray, by simpa using sized⟩ :: hashes, rest, ?_, malformed⟩
        rw [split]
        rfl
      · exact ⟨[], raw :: others, rfl, by simpa using sized⟩

/-- A malformed hash ends the batch after the hashes before it were looked up. -/
theorem batchLookup_malformed (platform : Platform) (modelId : String) (service : CacheService)
    (hashes : List PrefixHash) {raw : List UInt8} (malformed : raw.length ≠ 16)
    (others : List (List UInt8)) :
    service.batchLookup platform ⟨hashes.map PrefixHash.toBytes ++ raw :: others, modelId⟩ =
      (run (next (lookupLocal platform modelId)) service hashes,
        .error (invalidArgument "prefix_hash must be exactly 16 bytes")) := by
  rw [batchLookup, batchLookupFrom_append, batchLookupFrom, parsePrefixHash_of_malformed malformed]

/-- A run of local lookups counts its hits and misses. -/
theorem run_lookupLocal_counters (platform : Platform) (modelId : String)
    (service : CacheService) (hashes : List PrefixHash) :
    let entries := outputs (lookupLocal platform modelId) service hashes
    let after := run (next (lookupLocal platform modelId)) service hashes
    after.cacheHits = service.cacheHits + UInt64.ofNat (entries.countP Option.isSome) ∧
      after.cacheMisses =
        service.cacheMisses + UInt64.ofNat (entries.countP (! Option.isSome ·)) := by
  induction hashes generalizing service with
  | nil => simp [outputs]
  | cons prefixHash rest inductionHypothesis =>
      obtain ⟨hits, misses⟩ :=
        inductionHypothesis (next (lookupLocal platform modelId) service prefixHash)
      simp only [run_cons, outputs, List.countP_cons, hits, misses]
      simp only [next, lookupLocal]
      split
      · rename_i flag
        simp [flag, countHit, UInt64.ofNat_add, add_assoc, add_comm]
      · rename_i flag
        simp [flag, countMiss, UInt64.ofNat_add, add_assoc, add_comm]

/-- Adding a count below the width changes a counter unless it is zero. -/
theorem eq_zero_of_counter_eq {counter : UInt64} {count : Nat} (small : count < 2 ^ 64)
    (same : counter + UInt64.ofNat count = counter) : count = 0 := by
  have zero : UInt64.ofNat count = 0 := add_eq_left.mp same
  have sameNat := congrArg UInt64.toNat zero
  rwa [UInt64.toNat_ofNat_of_lt' small] at sameNat

/-- Looking up anything at all shows in the counters. -/
theorem not_sameRecency_run (platform : Platform) (modelId : String) (service : CacheService)
    {hashes : List PrefixHash} (nonempty : hashes ≠ []) (short : hashes.length ≤ isizeMax) :
    ¬ SameRecency service (run (next (lookupLocal platform modelId)) service hashes) := by
  rintro ⟨-, sameHits, sameMisses⟩
  obtain ⟨hits, misses⟩ := run_lookupLocal_counters platform modelId service hashes
  rw [hits] at sameHits
  rw [misses] at sameMisses
  have total := (outputs (lookupLocal platform modelId) service hashes).length_eq_countP_add_countP
    Option.isSome
  simp only [outputs_length, Bool.not_eq_true, Bool.decide_eq_false] at total
  have bound : isizeMax < 2 ^ 64 := by decide
  have noHits := eq_zero_of_counter_eq (by omega) sameHits
  have noMisses := eq_zero_of_counter_eq (by omega) sameMisses
  have positive := List.length_pos_of_ne_nil nonempty
  omega

/-- A rejected BatchLookup leaves recency and counters alone exactly when no
malformed element comes after a well-formed one: the loop stops at the first
malformed hash, and only a batch that starts with it has done nothing yet. The
hashes are a `Vec`, so there are at most `isize::MAX`. -/
theorem batchLookup_rejected_unchanged_iff (platform : Platform) (modelId : String)
    (service : CacheService) {rawHashes : List (List UInt8)}
    (isVec : rawHashes.length ≤ isizeMax) :
    ((∃ status, (service.batchLookup platform ⟨rawHashes, modelId⟩).2 = .error status) →
        SameRecency service (service.batchLookup platform ⟨rawHashes, modelId⟩).1) ↔
      ∀ first ∈ rawHashes.head?, first.length = 16 → ∀ raw ∈ rawHashes, raw.length = 16 := by
  obtain ⟨hashes, rest, rfl, malformed⟩ := exists_wellFormed_front rawHashes
  cases rest with
  | nil =>
      rw [List.append_nil, batchLookup_hashes]
      refine iff_of_true (by simp) ?_
      intro _ _ _ raw member
      obtain ⟨prefixHash, -, rfl⟩ := List.mem_map.mp member
      exact prefixHash.toBytes_length
  | cons raw others =>
      have malformedRaw : raw.length ≠ 16 := malformed raw rfl
      rw [batchLookup_malformed platform modelId service hashes malformedRaw]
      cases hashes with
      | nil =>
          refine iff_of_true (fun _ => ⟨rfl, rfl, rfl⟩) ?_
          intro first isFirst sized
          obtain rfl : raw = first := Option.some.inj isFirst
          exact absurd sized malformedRaw
      | cons prefixHash laterHashes =>
          refine iff_of_false ?_ ?_
          · intro unchanged
            apply not_sameRecency_run platform modelId service (List.cons_ne_nil _ _) _
              (unchanged ⟨_, rfl⟩)
            simp only [List.length_append, List.length_map] at isVec
            omega
          · intro wellFormed
            refine malformedRaw (wellFormed _ rfl prefixHash.toBytes_length raw ?_)
            exact List.mem_append_right _ List.mem_cons_self

/-- A batch that starts with an element that is too short is rejected without a trace,
although the agent has the older one of the two blocks asked for after it. -/
theorem batchLookup_rejected_first :
    let fresh := CacheService.new Geometry.twoBlocks 2 "a" false none
    let older := (fresh.index.insert (.ofByte 1) [] 0).1
    let service := { fresh with index := (older.insert (.ofByte 2) [] 0).1 }
    let rawHashes := [[0], (PrefixHash.ofByte 1).toBytes, (PrefixHash.ofByte 3).toBytes]
    (service.batchLookup .release ⟨rawHashes, ""⟩).2 =
        .error (invalidArgument "prefix_hash must be exactly 16 bytes") ∧
      service.index.lru.keys = [.ofByte 2, .ofByte 1] ∧
      SameRecency service (service.batchLookup .release ⟨rawHashes, ""⟩).1 := by
  intro fresh older service rawHashes
  have rejected : (service.batchLookup .release ⟨rawHashes, ""⟩).2 =
      .error (invalidArgument "prefix_hash must be exactly 16 bytes") := by
    decide +kernel
  have wellFormed : ∀ first ∈ rawHashes.head?, first.length = 16 →
      ∀ raw ∈ rawHashes, raw.length = 16 := by
    decide +kernel
  exact ⟨rejected, by decide +kernel,
    (batchLookup_rejected_unchanged_iff .release "" service (by decide)).mpr wellFormed
      ⟨_, rejected⟩⟩

/-- A well-formed hash before a short one: the batch is rejected and a miss is
counted. -/
theorem batchLookup_rejected_counts :
    let service := CacheService.new Geometry.twoBlocks 2 "a" false none
    let reply := service.batchLookup .release ⟨[(PrefixHash.ofByte 1).toBytes, [0]], ""⟩
    reply.2 = .error (invalidArgument "prefix_hash must be exactly 16 bytes") ∧
      reply.1.cacheMisses = 1 ∧ ¬ SameRecency service reply.1 := by
  intro service reply
  have rejected : reply.2 = .error (invalidArgument "prefix_hash must be exactly 16 bytes") := by
    decide +kernel
  have counted : reply.1.cacheMisses = 1 := by decide +kernel
  refine ⟨rejected, counted, ?_⟩
  rintro ⟨-, -, sameMisses⟩
  rw [counted] at sameMisses
  exact absurd sameMisses (by decide)

end CacheService

end CmxRdma.Agent
