import CmxRdma.Agent.BatchLookup
import CmxRdma.Client.Client

/-!
Contract: `cmx_client/async_client.py` against an agent.

Owns: the requests `batch_lookup`, `store` and `get` send and what they make of the
answers, and what a Get of an index key returns.

Does not own: channels, timeouts and the event loop; the other calls of the client.
-/

namespace CmxRdma.Client

open CmxRdma.Agent
open CmxRdma.BlockStore (IndexEntry)
open CmxRdma.Lib.Slices
open CmxRdma.Proto

namespace AsyncCmxClient

/-- The messages `store` sends: a header with the model id, then chunks of one
megabyte. -/
def storeRequests (prefixHash : PrefixHash) (data : List UInt8) (modelId : String) :
    StoreStream :=
  storeMessages ⟨prefixHash.toBytes, UInt64.ofNat data.length, modelId⟩
    (slices (1024 * 1024) data)

def batchLookup (platform : Platform) (service : CacheService) (prefixHashes : List PrefixHash)
    (modelId : String) : CacheService × Except Failure (List Bool) :=
  (service.batchLookup platform ⟨prefixHashes.map PrefixHash.toBytes, modelId⟩).map id fun
    | .error status => .error (.status status)
    | .ok response => .ok response.found

def store (platform : Platform) (service : CacheService) (now : UInt64)
    (prefixHash : PrefixHash) (data : List UInt8) (modelId : String) :
    CacheService × Except Failure (Bool × UInt64) :=
  (service.store platform now (storeRequests prefixHash data modelId)).map id
    (Except.map fun response => (response.success, response.generationId))

/-- What `get` makes of the outcome of the loop over the responses: a status of not
found, from the call or in the stream, is no value. -/
def collected : Except Failure (List (List UInt8)) → Except Failure (Option (List UInt8))
  | .ok chunks => .ok (if chunks.isEmpty then none else some chunks.flatten)
  | .error (.status ⟨.notFound, _⟩) => .ok none
  | .error failure => .error failure

def get (platform : Platform) (service : CacheService) (prefixHash : PrefixHash)
    (modelId : String) : CacheService × Except Failure (Option (List UInt8)) :=
  (service.get platform ⟨prefixHash.toBytes, modelId⟩).map id fun
    | .error status => collected (.error (.status status))
    | .ok stream => collected (CmxClient.receive stream)

/-- `store` sends what the synchronous client sends. -/
theorem store_eq (platform : Platform) (service : CacheService) (now : UInt64)
    (prefixHash : PrefixHash) (data : List UInt8) (modelId : String) :
    store platform service now prefixHash data modelId =
      CmxClient.store platform service now prefixHash data modelId := rfl

/-- `batch_lookup` reports what the local index holds. -/
theorem batchLookup_snd (platform : Platform) (service : CacheService)
    (prefixHashes : List PrefixHash) (modelId : String) :
    (batchLookup platform service prefixHashes modelId).2 =
      .ok (prefixHashes.map fun prefixHash =>
        (service.index.map.lookup (compositeKey platform modelId prefixHash)).isSome) := by
  rw [batchLookup, CacheService.batchLookup_hashes, CacheService.outputs_lookupLocal]
  simp

section Answers

variable {platform : Platform} {service : CacheService} {key : PrefixHash} {entry : IndexEntry}
  {bytes : List UInt8} {location : BlockStore.BlockLocation} {block : Nat}

/-- A Get of an index key returns the bytes kept under it. -/
theorem get_of_keeps (firstPool : service.allocator.pool.geometry.poolId = 0)
    (found : service.index.map.lookup key = some entry)
    (keeps : Keeps platform service.allocator entry bytes location block) :
    (get platform service key "").2 = .ok (some bytes) := by
  have streamed := keeps.get firstPool found
  simp [get, streamed, CmxClient.receive, collected, Except.map]

/-- A Get of an index key without an entry returns nothing. -/
theorem get_of_absent (absent : service.index.map.lookup key = none) :
    (get platform service key "").2 = .ok none := by
  simp only [get, Prod.map_snd, CacheService.get_answer, compositeKey_empty, absent]
  rfl

/-- Where every entry has one block, no Get returns `2 ^ 32` bytes or more. -/
theorem length_lt_of_get
    (single : ∀ key entry, service.index.map.lookup key = some entry →
      ∃ location, entry.blocks = [location])
    (read : (get platform service key "").2 = .ok (some bytes)) : bytes.length < 2 ^ 32 := by
  cases looked : service.index.map.lookup key with
  | none =>
      rw [get_of_absent looked] at read
      cases read
  | some entry =>
      obtain ⟨location, oneBlock⟩ := single key entry looked
      simp only [get, Prod.map_snd, CacheService.get_answer, compositeKey_empty, looked,
        CacheService.getTask, oneBlock, CacheService.streamBlocks] at read
      cases outcome : service.allocator.readVerified platform
          (CacheService.localHandle location) with
      | error panic =>
          simp only [outcome] at read
          cases read
      | ok result =>
          cases result with
          | none =>
              simp only [outcome] at read
              cases read
          | some data =>
              simp only [outcome] at read
              cases read
              simpa using BlockStore.BlockAllocator.length_lt_of_readVerified outcome

end Answers

end AsyncCmxClient

end CmxRdma.Client
