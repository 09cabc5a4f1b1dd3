import CmxRdma.Agent.Retention
import CmxRdma.Client.Hashing

/-!
Contract: `cmx_client/client.py` against an agent.

Owns: the requests `lookup`, `store` and `get` send and what they make of the
answers, and these calls against an agent whose contents are known.

Does not own: channels, timeouts, message-size limits and credentials; the
other calls of the client.
-/

namespace CmxRdma.Client

open CmxRdma.Agent
open CmxRdma.Lib.Slices
open CmxRdma.Proto

/-- `_CHUNK_SIZE`, one megabyte. -/
def chunkSize : Nat := 1024 * 1024

namespace CmxClient

/-- `lookup`: the request leaves the model id unset, which the agent reads as
empty. -/
def lookup (platform : Platform) (service : CacheService) (prefixHash : PrefixHash) :
    CacheService × Except Failure LookupResponse :=
  (service.lookup platform ⟨prefixHash.toBytes, ""⟩).map id (Except.mapError Failure.status)

/-- The messages `store` sends: a header with the model id, then chunks. -/
def storeRequests (prefixHash : PrefixHash) (data : List UInt8) (modelId : String) :
    StoreStream :=
  storeMessages ⟨prefixHash.toBytes, UInt64.ofNat data.length, modelId⟩ (slices chunkSize data)

def store (platform : Platform) (service : CacheService) (now : UInt64)
    (prefixHash : PrefixHash) (data : List UInt8) (modelId : String) :
    CacheService × Except Failure (Bool × UInt64) :=
  (service.store platform now (storeRequests prefixHash data modelId)).map id
    (Except.map fun response => (response.success, response.generationId))

/-- The loop of `get` over the responses; an error status is raised. -/
def receive : GetStream → Except Failure (List (List UInt8))
  | [] => .ok []
  | .error status :: _ => .error (.status status)
  | .ok ⟨some (.data chunk)⟩ :: rest => (receive rest).map (chunk :: ·)
  | .ok _ :: rest => receive rest

/-- `get`: the request leaves the model id unset; no data message at all means
no value. -/
def get (platform : Platform) (service : CacheService) (prefixHash : PrefixHash) :
    CacheService × Except Failure (Option (List UInt8)) :=
  (service.get platform ⟨prefixHash.toBytes, ""⟩).map id fun
    | .error status => .error (.status status)
    | .ok stream =>
        (receive stream).map fun chunks => if chunks.isEmpty then none else some chunks.flatten

/-! ## Against an agent that keeps its contents -/

section Retaining

variable {platform : Platform} {service : CacheService}
  {contents : PrefixHash → Option (List UInt8)}

theorem lookup_of_retains (retains : Retains platform service contents) (key : PrefixHash) :
    Retains platform (lookup platform service key).1 contents ∧
      ∃ result, (lookup platform service key).2 = .ok result ∧
        result.found = (contents key).isSome := by
  obtain ⟨after, blocks, isLocal, answer⟩ := retains.lookup key
  refine ⟨after, ⟨(contents key).isSome, blocks, isLocal⟩, ?_, rfl⟩
  simp only [lookup, Prod.map_snd, answer, Except.mapError]

theorem get_of_retains (retains : Retains platform service contents) {key : PrefixHash}
    {bytes : List UInt8} (kept : contents key = some bytes) :
    Retains platform (get platform service key).1 contents ∧
      (get platform service key).2 = .ok (some bytes) := by
  obtain ⟨after, answer⟩ := retains.get key
  rw [kept] at answer
  obtain ⟨header, streamed⟩ := answer
  refine ⟨after, ?_⟩
  simp [get, streamed, receive, Except.map]

theorem isOk_of_isOk_store {now : UInt64} {prefixHash : PrefixHash} {data : List UInt8}
    {modelId : String} (succeeds : (store platform service now prefixHash data modelId).2.isOk) :
    (service.store platform now (storeRequests prefixHash data modelId)).2.isOk := by
  simp only [store, Prod.map_snd] at succeeds
  cases answer : (service.store platform now (storeRequests prefixHash data modelId)).2 with
  | error failure =>
      rw [answer] at succeeds
      cases succeeds
  | ok response => rfl

/-- What a Store that succeeded was admitted with. -/
theorem storeAdmit_of_isOk {now : UInt64} {prefixHash : PrefixHash} {data : List UInt8}
    {modelId : String}
    (succeeds : (service.store platform now (storeRequests prefixHash data modelId)).2.isOk) :
    service.storeAdmit platform (storeRequests prefixHash data modelId) =
      .ok (compositeKey platform modelId prefixHash, data) := by
  cases admitted : service.storeAdmit platform (storeRequests prefixHash data modelId) with
  | error failure =>
      rw [CacheService.store_of_not_admitted admitted] at succeeds
      cases succeeds
  | ok pair =>
      obtain ⟨key, bytes⟩ := pair
      obtain ⟨header, rest, parsedHash, read, parsed, declared, collected, rfl⟩ :=
        CacheService.storeAdmit_eq_ok admitted
      cases read
      rw [parsePrefixHash_toBytes] at parsed
      cases parsed
      rw [CacheService.collectData_map_data declared, List.nil_append, flatten_slices (by decide)]
        at collected
      split at collected
      · cases collected
        rfl
      · cases collected

theorem store_of_retains (retains : Retains platform service contents) {now : UInt64}
    {prefixHash : PrefixHash} {data : List UInt8} {modelId : String} (short : data.length < 2 ^ 32)
    (succeeds : (store platform service now prefixHash data modelId).2.isOk)
    (nobodyLeft : ∀ other ∈ service.index.map,
      other ∈ (store platform service now prefixHash data modelId).1.index.map) :
    Retains platform (store platform service now prefixHash data modelId).1
      (Function.update contents (compositeKey platform modelId prefixHash) (some data)) := by
  have stored := isOk_of_isOk_store succeeds
  exact retains.store (storeAdmit_of_isOk stored) short stored nobodyLeft

end Retaining

end CmxClient

end CmxRdma.Client
