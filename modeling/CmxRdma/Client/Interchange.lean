import CmxRdma.Agent.StoreStreams
import CmxRdma.Client.AsyncClient

/-!
Contract: the two clients of `cmx_client` side by side, against any agent.

Owns: the messages of `store`, `batch_lookup` and `get` with every field of
`cmx.proto`, what each client makes of any answer, exactly when the two give the
caller the same, and that an upload is cut into chunks without loss.

Does not own: channels, timeouts and message-size limits. An agent is any
function from requests to answers; the modelled one is an instance.
-/

namespace CmxRdma.Client

open CmxRdma.Agent
open CmxRdma.Lib.Slices
open CmxRdma.Memory
open CmxRdma.Proto

/-! ## Messages -/

/-- `StoreHeader` with all its fields. -/
structure FullStoreHeader where
  prefixHash : List UInt8
  numBlocks : UInt32
  totalSize : UInt64
  modelId : String
deriving DecidableEq

/-- A `StoreRequest` as the clients build them: the payload is set. -/
inductive StoreMessage where
  | header (header : FullStoreHeader)
  | data (chunk : List UInt8)
deriving DecidableEq

/-- `GetRequest` with all its fields; those a client leaves unset have their default. -/
structure FullGetRequest where
  prefixHash : List UInt8
  numBlocks : UInt32 := 0
  sourceNodeId : String := ""
  modelId : String := ""
deriving DecidableEq

/-- What the agent reads of a message. -/
def StoreMessage.read : StoreMessage → StoreRequest
  | .header fields => ⟨some (.header ⟨fields.prefixHash, fields.totalSize, fields.modelId⟩)⟩
  | .data chunk => ⟨some (.data chunk)⟩

def FullGetRequest.read (request : FullGetRequest) : GetRequest :=
  ⟨request.prefixHash, request.modelId⟩

/-- The answer to a Get: its responses, ended normally or by an error status. -/
structure GetAnswer where
  responses : List GetResponse
  ending : Option Status

/-- The answer as the clients iterate over it. -/
def GetAnswer.stream (answer : GetAnswer) : GetStream :=
  answer.responses.map .ok ++ answer.ending.toList.map .error

/-- How an agent answers, whatever it is. -/
structure AgentBehaviour where
  store : List StoreMessage → Except Failure StoreResponse
  batchLookup : BatchLookupRequest → Except Failure BatchLookupResponse
  get : FullGetRequest → GetAnswer

/-- A call: what it sends, and what the caller gets for each answer. -/
structure RpcCall (Request Answer Value : Type) where
  request : Request
  outcome : Answer → Except Failure Value

def RpcCall.perform {Request Answer Value : Type} (call : RpcCall Request Answer Value)
    (answers : Request → Answer) : Except Failure Value :=
  call.outcome (answers call.request)

/-- The generator both `store` methods are written around: the header, then
`data[i : i + chunk]` for `i` in `range(0, len(data), chunk)`. -/
def storeGenerator (chunk : Nat) (prefixHash data : List UInt8) (modelId : String)
    (numBlocks : UInt32) : List StoreMessage :=
  .header ⟨prefixHash, numBlocks, UInt64.ofNat data.length, modelId⟩ ::
    (slices chunk data).map .data

/-! ## The two clients -/

namespace CmxClient

def requestIterator (prefixHash data : List UInt8) (modelId : String) (numBlocks : UInt32) :
    List StoreMessage :=
  storeGenerator chunkSize prefixHash data modelId numBlocks

def storeCall (prefixHash data : List UInt8) (modelId : String) (numBlocks : UInt32) :
    RpcCall (List StoreMessage) (Except Failure StoreResponse) (Bool × UInt64) where
  request := requestIterator prefixHash data modelId numBlocks
  outcome := Except.map fun response => (response.success, response.generationId)

def batchLookupCall (prefixHashes : List (List UInt8)) (modelId : String) :
    RpcCall BatchLookupRequest (Except Failure BatchLookupResponse) (List Bool) where
  request := ⟨prefixHashes, modelId⟩
  outcome := Except.map fun response => response.found

/-- `get` with its defaults; the request leaves the model id unset. -/
def getCall (prefixHash : List UInt8) :
    RpcCall FullGetRequest GetAnswer (Option (List UInt8)) where
  request := { prefixHash := prefixHash, numBlocks := 0, sourceNodeId := "" }
  outcome answer :=
    (receive answer.stream).map fun chunks => if chunks.isEmpty then none else some chunks.flatten

end CmxClient

namespace AsyncCmxClient

def requestIter (prefixHash data : List UInt8) (modelId : String) (numBlocks : UInt32) :
    List StoreMessage :=
  storeGenerator (1024 * 1024) prefixHash data modelId numBlocks

def storeCall (prefixHash data : List UInt8) (modelId : String) (numBlocks : UInt32) :
    RpcCall (List StoreMessage) (Except Failure StoreResponse) (Bool × UInt64) where
  request := requestIter prefixHash data modelId numBlocks
  outcome := Except.map fun response => (response.success, response.generationId)

def batchLookupCall (prefixHashes : List (List UInt8)) (modelId : String) :
    RpcCall BatchLookupRequest (Except Failure BatchLookupResponse) (List Bool) where
  request := ⟨prefixHashes, modelId⟩
  outcome := Except.map fun response => response.found

def getCall (prefixHash : List UInt8) (modelId : String) :
    RpcCall FullGetRequest GetAnswer (Option (List UInt8)) where
  request := { prefixHash := prefixHash, modelId := modelId }
  outcome answer := collected (CmxClient.receive answer.stream)

end AsyncCmxClient

/-! ## Against the modelled agent -/

/-- What an iteration over a stream meets: the responses up to the first error. -/
def GetAnswer.ofStream : GetStream → GetAnswer
  | [] => ⟨[], none⟩
  | .error status :: _ => ⟨[], some status⟩
  | .ok response :: rest => ⟨response :: (ofStream rest).responses, (ofStream rest).ending⟩

/-- The agent in a given state, as it answers one request. -/
def agentBehaviour (platform : Platform) (service : CacheService) (now : UInt64) :
    AgentBehaviour where
  store messages := (service.store platform now (delivered (messages.map StoreMessage.read))).2
  batchLookup request := (service.batchLookup platform request).2.mapError .status
  get request :=
    match (service.get platform request.read).2 with
    | .error status => ⟨[], some status⟩
    | .ok stream => .ofStream stream

theorem CmxClient.receive_ofStream (stream : GetStream) :
    receive (GetAnswer.ofStream stream).stream = receive stream := by
  induction stream with
  | nil => rfl
  | cons message rest inductionHypothesis =>
      cases message with
      | error status => rfl
      | ok response =>
          rw [GetAnswer.stream] at inductionHypothesis
          rcases response with ⟨_ | _ | chunk⟩ <;>
            simp [GetAnswer.ofStream, GetAnswer.stream, receive, inductionHypothesis]

section Agent

variable (platform : Platform) (service : CacheService) (now : UInt64)

theorem delivered_storeGenerator (chunk : Nat) (prefixHash data : List UInt8) (modelId : String)
    (numBlocks : UInt32) :
    delivered ((storeGenerator chunk prefixHash data modelId numBlocks).map StoreMessage.read) =
      storeMessages ⟨prefixHash, UInt64.ofNat data.length, modelId⟩ (slices chunk data) := by
  simp [delivered, storeGenerator, storeMessages, StoreMessage.read]

theorem CmxClient.store_eq_perform (prefixHash : PrefixHash) (data : List UInt8)
    (modelId : String) (numBlocks : UInt32) :
    (store platform service now prefixHash data modelId).2 =
      (storeCall prefixHash.toBytes data modelId numBlocks).perform
        (agentBehaviour platform service now).store := by
  simp only [RpcCall.perform, storeCall, requestIterator, agentBehaviour,
    delivered_storeGenerator]
  rfl

theorem CmxClient.get_eq_perform (prefixHash : PrefixHash) :
    (get platform service prefixHash).2 =
      (getCall prefixHash.toBytes).perform (agentBehaviour platform service now).get := by
  simp only [RpcCall.perform, getCall, agentBehaviour, FullGetRequest.read, get, Prod.map_snd]
  cases (service.get platform ⟨prefixHash.toBytes, ""⟩).2 with
  | error status => rfl
  | ok stream => simp only [receive_ofStream]

theorem AsyncCmxClient.store_eq_perform (prefixHash : PrefixHash) (data : List UInt8)
    (modelId : String) (numBlocks : UInt32) :
    (store platform service now prefixHash data modelId).2 =
      (storeCall prefixHash.toBytes data modelId numBlocks).perform
        (agentBehaviour platform service now).store := by
  simp only [RpcCall.perform, storeCall, requestIter, agentBehaviour, delivered_storeGenerator]
  rfl

theorem AsyncCmxClient.batchLookup_eq_perform (prefixHashes : List PrefixHash)
    (modelId : String) :
    (batchLookup platform service prefixHashes modelId).2 =
      (batchLookupCall (prefixHashes.map PrefixHash.toBytes) modelId).perform
        (agentBehaviour platform service now).batchLookup := by
  simp only [RpcCall.perform, batchLookupCall, agentBehaviour, batchLookup, Prod.map_snd]
  cases (service.batchLookup platform ⟨prefixHashes.map PrefixHash.toBytes, modelId⟩).2 <;> rfl

theorem AsyncCmxClient.get_eq_perform (prefixHash : PrefixHash) (modelId : String) :
    (get platform service prefixHash modelId).2 =
      (getCall prefixHash.toBytes modelId).perform (agentBehaviour platform service now).get := by
  simp only [RpcCall.perform, getCall, agentBehaviour, FullGetRequest.read, get, Prod.map_snd]
  cases (service.get platform ⟨prefixHash.toBytes, modelId⟩).2 with
  | error status => rfl
  | ok stream => simp only [CmxClient.receive_ofStream]

end Agent

/-! ## Interchange -/

/-- The caller gets the same value, or an exception from both. -/
def SameOutcome {Value : Type} (left right : Except Failure Value) : Prop :=
  left.toOption = right.toOption

/-- Against this agent two calls send the same request and give the same outcome. -/
def Interchangeable {Request Answer Value : Type} (answers : Request → Answer)
    (left right : RpcCall Request Answer Value) : Prop :=
  left.request = right.request ∧ SameOutcome (left.perform answers) (right.perform answers)

/-- The loop over the responses of a Get raises the status that ends them, if one does. -/
theorem CmxClient.receive_stream_of_ending {answer : GetAnswer} {status : Status}
    (ended : answer.ending = some status) : receive answer.stream = .error (.status status) := by
  obtain ⟨responses, ending⟩ := answer
  obtain rfl : ending = some status := ended
  induction responses with
  | nil => rfl
  | cons response rest inductionHypothesis =>
      rw [GetAnswer.stream] at inductionHypothesis
      rcases response with ⟨_ | _ | chunk⟩ <;>
        simp_all [GetAnswer.stream, receive, Except.map]

theorem CmxClient.receive_stream_of_end {answer : GetAnswer} (ended : answer.ending = none) :
    ∃ chunks, receive answer.stream = .ok chunks := by
  obtain ⟨responses, ending⟩ := answer
  obtain rfl : ending = none := ended
  induction responses with
  | nil => exact ⟨[], rfl⟩
  | cons response rest inductionHypothesis =>
      obtain ⟨chunks, received⟩ := inductionHypothesis
      rw [GetAnswer.stream] at received
      rcases response with ⟨_ | _ | chunk⟩
      · exact ⟨chunks, by simpa [GetAnswer.stream, receive] using received⟩
      · exact ⟨chunks, by simpa [GetAnswer.stream, receive] using received⟩
      · exact ⟨chunk :: chunks, by simp_all [GetAnswer.stream, receive, Except.map]⟩

/-- The two `get` methods differ exactly on a stream that a status of not found ends:
one raises it, the other returns no value. -/
theorem sameOutcome_get_iff (prefixHash : List UInt8) (answer : GetAnswer) :
    SameOutcome ((CmxClient.getCall prefixHash).outcome answer)
        ((AsyncCmxClient.getCall prefixHash "").outcome answer) ↔
      ∀ status, answer.ending = some status → status.code ≠ .notFound := by
  simp only [SameOutcome, CmxClient.getCall, AsyncCmxClient.getCall]
  cases ended : answer.ending with
  | none =>
      obtain ⟨chunks, received⟩ := CmxClient.receive_stream_of_end ended
      rw [received]
      exact iff_of_true rfl (by simp)
  | some status =>
      rw [CmxClient.receive_stream_of_ending ended]
      obtain ⟨code, message⟩ := status
      cases code <;> simp [AsyncCmxClient.collected, Except.map, Except.toOption]

/-- Against any agent the clients' `store`, `batch_lookup` and `get` send the same
messages and give the same outcomes exactly when the agent does not end the Get with
a status of not found. -/
theorem clients_interchangeable_iff (agent : AgentBehaviour) (prefixHash data : List UInt8)
    (prefixHashes : List (List UInt8)) (modelId : String) (numBlocks : UInt32) :
    Interchangeable agent.store (CmxClient.storeCall prefixHash data modelId numBlocks)
        (AsyncCmxClient.storeCall prefixHash data modelId numBlocks) ∧
      Interchangeable agent.batchLookup (CmxClient.batchLookupCall prefixHashes modelId)
        (AsyncCmxClient.batchLookupCall prefixHashes modelId) ∧
      Interchangeable agent.get (CmxClient.getCall prefixHash)
        (AsyncCmxClient.getCall prefixHash "") ↔
      ∀ status, (agent.get { prefixHash := prefixHash }).ending = some status →
        status.code ≠ .notFound := by
  have sameStore : Interchangeable agent.store
      (CmxClient.storeCall prefixHash data modelId numBlocks)
      (AsyncCmxClient.storeCall prefixHash data modelId numBlocks) := ⟨rfl, rfl⟩
  have sameLookup : Interchangeable agent.batchLookup
      (CmxClient.batchLookupCall prefixHashes modelId)
      (AsyncCmxClient.batchLookupCall prefixHashes modelId) := ⟨rfl, rfl⟩
  rw [← sameOutcome_get_iff prefixHash]
  constructor
  · rintro ⟨-, -, -, sameGet⟩
    exact sameGet
  · intro sameGet
    exact ⟨sameStore, sameLookup, rfl, sameGet⟩

/-- A new agent, asked for a key it does not have: the synchronous client raises, the
asynchronous one returns no value. -/
theorem missing_key_clients_differ :
    let agent := agentBehaviour .release (CacheService.new Geometry.twoBlocks 2 "a" false none) 0
    let prefixHash := (PrefixHash.ofByte 7).toBytes
    (CmxClient.getCall prefixHash).perform agent.get =
        .error (.status ⟨.notFound, "prefix hash not found in cache"⟩) ∧
      (AsyncCmxClient.getCall prefixHash "").perform agent.get = .ok none := by
  decide +kernel

/-! ## Chunks -/

/-- A Python `bytes` object: its length is at most `sys.maxsize`. -/
structure ByteString where
  contents : List UInt8
  short : contents.length < 2 ^ 63

/-- Whatever the chunk size, the agent reads the length of the data in the header and
collects the data from the messages that follow, none of which is empty. -/
theorem upload_lossless (platform : Platform) {chunk : Nat} (positive : 1 ≤ chunk)
    (prefixHash : List UInt8)
    (data : ByteString) (modelId : String) (numBlocks : UInt32) :
    let messages := storeGenerator chunk prefixHash data.contents modelId numBlocks
    ∃ header rest,
      CacheService.readHeader (delivered (messages.map StoreMessage.read)) = .ok (header, rest) ∧
        header.totalSize.toNat = data.contents.length ∧
        CacheService.collectData platform header.totalSize.toNat [] rest = .ok data.contents ∧
        StoreMessage.data [] ∉ messages := by
  intro messages
  have sent := delivered_storeGenerator chunk prefixHash data.contents modelId numBlocks
  have declared : (UInt64.ofNat data.contents.length).toNat = data.contents.length := by
    have short := data.short
    exact UInt64.toNat_ofNat_of_lt' (by rw [UInt64.size]; omega)
  refine ⟨_, _, by rw [sent]; rfl, declared, ?_, ?_⟩
  · rw [CacheService.collectData_of_declared, List.nil_append, flatten_slices positive]
    rw [flatten_slices positive, List.length_nil, Nat.zero_add]
    exact declared.ge
  · intro isEmpty
    rcases List.mem_cons.mp isEmpty with isHeader | isData
    · cases isHeader
    · obtain ⟨piece, isSlice, same⟩ := List.mem_map.mp isData
      cases same
      exact nil_notMem_slices positive data.contents isSlice

/-- Five bytes in chunks of two. -/
theorem upload_lossless_five_bytes :
    let data : ByteString := ⟨[1, 2, 3, 4, 5], by decide⟩
    let messages := storeGenerator 2 [] data.contents "" 1
    ∃ header rest,
      CacheService.readHeader (delivered (messages.map StoreMessage.read)) = .ok (header, rest) ∧
        header.totalSize.toNat = 5 ∧
        CacheService.collectData .release header.totalSize.toNat [] rest = .ok data.contents ∧
        StoreMessage.data [] ∉ messages := by
  intro data messages
  exact upload_lossless .release (Nat.le_succ 1) [] data "" 1

end CmxRdma.Client
