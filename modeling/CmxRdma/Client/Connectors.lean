import CmxRdma.Client.Client
import CmxRdma.Lib.RecencyMap
import CmxRdma.Lib.Transition

/-!
Contract: the string-key connectors `cmx_lmcache/connector.py` and
`cmx_sglang/backend.py`.

Owns: their calls, the ideal store a caller expects, the runs of calls in which
nothing is evicted and every put succeeds, and exactly when such a run answers
as the ideal store does.

Does not own: `close` and the context managers; the vLLM connector.
-/

namespace CmxRdma.Client

open CmxRdma.Agent
open CmxRdma.Lib
open CmxRdma.Lib.Transition
open CmxRdma.Memory
open CmxRdma.Proto

/-- What a connector call can raise: a failed RPC, or its own `RuntimeError`. -/
inductive ConnectorError where
  | rpcError (failure : Failure)
  | runtimeError (message : String)
deriving DecidableEq

/-! ## Calls

The two classes have the same bodies under different method names. -/

def lookupKey (platform : Platform) (service : CacheService) (key : String) :
    CacheService × Except ConnectorError Bool :=
  (CmxClient.lookup platform service (hashKey platform key)).map id fun outcome =>
    (outcome.mapError ConnectorError.rpcError).map LookupResponse.found

def storeKey (platform : Platform) (modelId : String) (service : CacheService) (now : UInt64)
    (key : String) (value : List UInt8) : CacheService × Except ConnectorError Unit :=
  (CmxClient.store platform service now (hashKey platform key) value modelId).map id fun
    | .error failure => .error (.rpcError failure)
    | .ok (true, _) => .ok ()
    | .ok (false, _) => .error (.runtimeError ("Failed to store key: " ++ key))

def getKey (platform : Platform) (service : CacheService) (key : String) :
    CacheService × Except ConnectorError (Option (List UInt8)) :=
  match CmxClient.lookup platform service (hashKey platform key) with
  | (looked, .error failure) => (looked, .error (.rpcError failure))
  | (looked, .ok result) =>
      if result.found then
        (CmxClient.get platform looked (hashKey platform key)).map id
          (Except.mapError ConnectorError.rpcError)
      else (looked, .ok none)

namespace CmxRemoteConnector

def contains (platform : Platform) (service : CacheService) (key : String) :
    CacheService × Except ConnectorError Bool := lookupKey platform service key

def put (platform : Platform) (modelId : String) (service : CacheService) (now : UInt64)
    (key : String) (kvTensors : List UInt8) : CacheService × Except ConnectorError Unit :=
  storeKey platform modelId service now key kvTensors

def get (platform : Platform) (service : CacheService) (key : String) :
    CacheService × Except ConnectorError (Option (List UInt8)) := getKey platform service key

end CmxRemoteConnector

namespace CmxHiCacheStorage

def exist (platform : Platform) (service : CacheService) (key : String) :
    CacheService × Except ConnectorError Bool := lookupKey platform service key

def set (platform : Platform) (modelId : String) (service : CacheService) (now : UInt64)
    (key : String) (value : List UInt8) : CacheService × Except ConnectorError Unit :=
  storeKey platform modelId service now key value

def get (platform : Platform) (service : CacheService) (key : String) :
    CacheService × Except ConnectorError (Option (List UInt8)) := getKey platform service key

end CmxHiCacheStorage

inductive Connector where
  | cmxRemoteConnector
  | cmxHiCacheStorage

/-- A call of either class: `put` or `set`, `contains` or `exist`, `get`. The
agent stamps a Store with `now`. -/
inductive Call where
  | put (now : UInt64) (key : String) (value : List UInt8)
  | contains (key : String)
  | get (key : String)

inductive Answer where
  | put (outcome : Except ConnectorError Unit)
  | contains (outcome : Except ConnectorError Bool)
  | get (outcome : Except ConnectorError (Option (List UInt8)))
deriving DecidableEq

def step (connector : Connector) (platform : Platform) (modelId : String)
    (service : CacheService) : Call → CacheService × Answer
  | .put now key value =>
      match connector with
      | .cmxRemoteConnector =>
          (CmxRemoteConnector.put platform modelId service now key value).map id .put
      | .cmxHiCacheStorage =>
          (CmxHiCacheStorage.set platform modelId service now key value).map id .put
  | .contains key =>
      match connector with
      | .cmxRemoteConnector => (CmxRemoteConnector.contains platform service key).map id .contains
      | .cmxHiCacheStorage => (CmxHiCacheStorage.exist platform service key).map id .contains
  | .get key =>
      match connector with
      | .cmxRemoteConnector => (CmxRemoteConnector.get platform service key).map id .get
      | .cmxHiCacheStorage => (CmxHiCacheStorage.get platform service key).map id .get

theorem step_put (connector : Connector) (platform : Platform) (modelId : String)
    (service : CacheService) (now : UInt64) (key : String) (value : List UInt8) :
    step connector platform modelId service (.put now key value) =
      (storeKey platform modelId service now key value).map id .put := by
  cases connector <;> rfl

theorem step_contains (connector : Connector) (platform : Platform) (modelId : String)
    (service : CacheService) (key : String) :
    step connector platform modelId service (.contains key) =
      (lookupKey platform service key).map id .contains := by
  cases connector <;> rfl

theorem step_get (connector : Connector) (platform : Platform) (modelId : String)
    (service : CacheService) (key : String) :
    step connector platform modelId service (.get key) =
      (getKey platform service key).map id .get := by
  cases connector <;> rfl

/-! ## What a caller expects -/

/-- The earlier puts of a run, newest first. -/
abbrev History : Type := List (String × List UInt8)

/-- A store that remembers its puts. -/
def idealStep (history : History) : Call → History × Answer
  | .put _ key value => ((key, value) :: history, .put (.ok ()))
  | .contains key => (history, .contains (.ok (RecencyMap.find key history).isSome))
  | .get key => (history, .get (.ok (RecencyMap.find key history)))

/-! ## What the agent keeps -/

/-- The index key of a put. -/
def putKey (platform : Platform) (modelId key : String) : PrefixHash :=
  compositeKey platform modelId (hashKey platform key)

/-- The contents of the agent after some puts. -/
def contents (platform : Platform) (modelId : String) (history : History) :
    PrefixHash → Option (List UInt8) := fun key =>
  RecencyMap.find key (history.map (Prod.map (putKey platform modelId) id))

/-- A store of the agent's contents with reads by the hash of the key, as the connectors
make them. -/
def hashedStep (platform : Platform) (modelId : String) (history : History) :
    Call → History × Answer
  | .put _ key value => ((key, value) :: history, .put (.ok ()))
  | .contains key =>
      (history, .contains (.ok (contents platform modelId history (hashKey platform key)).isSome))
  | .get key => (history, .get (.ok (contents platform modelId history (hashKey platform key))))

theorem contents_cons (platform : Platform) (modelId : String) (key : String)
    (value : List UInt8) (history : History) :
    contents platform modelId ((key, value) :: history) =
      Function.update (contents platform modelId history) (putKey platform modelId key)
        (some value) := by
  funext other
  by_cases same : other = putKey platform modelId key
  · subst same
    rw [Function.update_self]
    exact RecencyMap.find_cons_self _ _ _
  · rw [Function.update_of_ne same]
    exact RecencyMap.find_cons_ne (Ne.symm same) _ _

/-- A put succeeds and pushes no entry out of the index. -/
def StoresAndKeeps (connector : Connector) (platform : Platform) (modelId : String)
    (service : CacheService) : Call → Prop
  | .put now key value =>
      (step connector platform modelId service (.put now key value)).2 = .put (.ok ()) ∧
        ∀ other ∈ service.index.map.keys,
          other ∈ (step connector platform modelId service (.put now key value)).1.index.map
  | _ => True

instance (connector : Connector) (platform : Platform) (modelId : String)
    (service : CacheService) :
    (call : Call) → Decidable (StoresAndKeeps connector platform modelId service call)
  | .put _ _ _ => inferInstanceAs (Decidable (_ ∧ ∀ other ∈ service.index.map.keys, _))
  | .contains _ | .get _ => inferInstanceAs (Decidable True)

/-- Values whose length the agent's header can hold. -/
def Call.Short : Call → Prop
  | .put _ _ value => value.length < 2 ^ 32
  | _ => True

instance : (call : Call) → Decidable call.Short
  | .put _ _ value => inferInstanceAs (Decidable (value.length < 2 ^ 32))
  | .contains _ | .get _ => inferInstanceAs (Decidable True)

/-- One call against an agent that keeps the contents of its puts. -/
theorem step_simulates {connector : Connector} {platform : Platform} {modelId : String}
    {service : CacheService} {history : History} {call : Call}
    (undisturbed : StoresAndKeeps connector platform modelId service call) (short : call.Short)
    (retains : Retains platform service (contents platform modelId history)) :
    (step connector platform modelId service call).2 =
        (hashedStep platform modelId history call).2 ∧
      Retains platform (step connector platform modelId service call).1
        (contents platform modelId (hashedStep platform modelId history call).1) := by
  cases call with
  | put now key value =>
      obtain ⟨succeeds, nobodyLeft⟩ := undisturbed
      refine ⟨succeeds, ?_⟩
      rw [step_put] at succeeds nobodyLeft ⊢
      rw [hashedStep, contents_cons]
      refine CmxClient.store_of_retains retains short ?_ fun other member => nobodyLeft other member
      cases outcome : (CmxClient.store platform service now (hashKey platform key) value
          modelId).2 with
      | error failure => simp [storeKey, outcome] at succeeds
      | ok pair => rfl
  | contains key =>
      obtain ⟨after, result, answer, found⟩ :=
        CmxClient.lookup_of_retains retains (hashKey platform key)
      rw [step_contains]
      refine ⟨?_, after⟩
      simp [lookupKey, hashedStep, answer, Except.mapError, Except.map, found]
  | get key =>
      obtain ⟨looked, result, answer, found⟩ :=
        CmxClient.lookup_of_retains retains (hashKey platform key)
      rw [step_get, hashedStep]
      rcases outcome : CmxClient.lookup platform service (hashKey platform key) with ⟨after, reply⟩
      rw [outcome] at looked answer
      simp only at looked answer
      subst answer
      simp only [getKey, outcome, found]
      cases kept : contents platform modelId history (hashKey platform key) with
      | none => exact ⟨rfl, looked⟩
      | some bytes =>
          obtain ⟨read, value⟩ := CmxClient.get_of_retains looked kept
          simp only [Option.isSome_some, if_true]
          refine ⟨?_, read⟩
          simp [value, Except.mapError]

/-! ## Reading back -/

/-- The string the agent hashes for a put under a model id. -/
def spelling (platform : Platform) (modelId key : String) : List UInt8 :=
  utf8 modelId ++ (hashKey platform key).toBytes

/-- The last put whose spelling is the text of `key`. -/
def spelledPut (platform : Platform) (modelId : String) (history : History) (key : String) :
    Option (List UInt8) :=
  RecencyMap.find (utf8 key) (history.map (Prod.map (spelling platform modelId) id))

/-- A read is answered as expected without a model id, or when the last put of
its key and the last put spelled like it agree. -/
def ReadsBack (platform : Platform) (modelId : String) (history : History) : Call → Prop
  | .put _ _ _ => True
  | .contains key => modelId = "" ∨
      (RecencyMap.find key history).isSome = (spelledPut platform modelId history key).isSome
  | .get key => modelId = "" ∨
      RecencyMap.find key history = spelledPut platform modelId history key

/-- The strings hashed for a call, by the connector and by the agent, which hashes
only under a model id. -/
def Call.hashedStrings (platform : Platform) (modelId : String) : Call → List (List UInt8)
  | .put _ key _ =>
      utf8 key :: if modelId = "" then [] else [spelling platform modelId key]
  | .contains key | .get key => [utf8 key]

section Reads

variable {platform : Platform} {modelId : String} {strings : List (List UInt8)}
  {history : History}

/-- Without a model id the agent is read under the keys it was written with. -/
theorem contents_of_no_model (collisionFree : CollisionFree platform strings)
    (known : ∀ put ∈ history, utf8 put.1 ∈ strings) {key : String}
    (keyKnown : utf8 key ∈ strings) :
    contents platform "" history (hashKey platform key) = RecencyMap.find key history := by
  apply RecencyMap.find_map_key
  intro put member sameHash
  exact utf8_injective (collisionFree _ (known put member) _ keyKnown sameHash)

/-- With one, a read finds the puts spelled like its key. -/
theorem contents_of_model (named : modelId ≠ "") (collisionFree : CollisionFree platform strings)
    (known : ∀ put ∈ history, spelling platform modelId put.1 ∈ strings) {key : String}
    (keyKnown : utf8 key ∈ strings) :
    contents platform modelId history (hashKey platform key) =
      spelledPut platform modelId history key := by
  have composed : putKey platform modelId =
      platform.sha256Truncated ∘ spelling platform modelId := by
    funext other
    have notEmpty : modelId.isEmpty = false := by simpa using named
    simp only [putKey, compositeKey, notEmpty, Bool.false_eq_true, if_false, Function.comp_apply,
      spelling]
  have split : Prod.map (putKey platform modelId) (id : List UInt8 → List UInt8) =
      Prod.map platform.sha256Truncated id ∘ Prod.map (spelling platform modelId) id := by
    rw [composed, Prod.map_comp_map, Function.comp_id]
  rw [contents, split, ← List.map_map]
  show RecencyMap.find (platform.sha256Truncated (utf8 key)) _ = spelledPut platform modelId _ key
  apply RecencyMap.find_map_key
  intro put member sameHash
  obtain ⟨original, inHistory, rfl⟩ := List.mem_map.mp member
  exact collisionFree _ (known original inHistory) _ keyKnown sameHash

/-- The hashed store answers a call as the ideal one exactly when it reads back. -/
theorem hashedStep_eq_iff {call : Call} (collisionFree : CollisionFree platform strings)
    (known : ∀ put ∈ history, ∀ text ∈ (Call.put 0 put.1 put.2).hashedStrings platform modelId,
      text ∈ strings)
    (callKnown : ∀ text ∈ call.hashedStrings platform modelId, text ∈ strings) :
    (hashedStep platform modelId history call).2 = (idealStep history call).2 ↔
      ReadsBack platform modelId history call := by
  have read {key : String} (keyKnown : utf8 key ∈ strings) :
      contents platform modelId history (hashKey platform key) =
        if modelId = "" then RecencyMap.find key history
        else spelledPut platform modelId history key := by
    split
    · rename_i unnamed
      subst unnamed
      refine contents_of_no_model collisionFree (fun put member => ?_) keyKnown
      exact known put member _ List.mem_cons_self
    · rename_i named
      refine contents_of_model named collisionFree (fun put member => ?_) keyKnown
      exact known put member _ (by simp [Call.hashedStrings, named])
  cases call with
  | put now key value => exact iff_of_true rfl trivial
  | contains key =>
      simp only [hashedStep, idealStep, ReadsBack, read (callKnown _ List.mem_cons_self)]
      split <;> simp_all [eq_comm]
  | get key =>
      simp only [hashedStep, idealStep, ReadsBack, read (callKnown _ List.mem_cons_self)]
      split <;> simp_all [eq_comm]

end Reads

/-- A connector reads its writes exactly when every read of the run reads back:
for every connector, model id and run of calls against an agent that starts
empty, stores every put and evicts nothing, as long as values are shorter than
`2 ^ 32` bytes and no strings hashed in the run collide. -/
theorem connector_reads_its_writes_iff (connector : Connector) (platform : Platform)
    (geometry : Geometry) (firstPool : geometry.poolId = 0) (capacity : Nat) (nodeId : String)
    (metadata : Bool) (remoteIndex : Option RemoteIndex)
    (vacant : ∀ remote ∈ remoteIndex, remote = RemoteIndex.new) (modelId : String)
    (calls : List Call) (short : ∀ call ∈ calls, call.Short)
    (undisturbed : Allows (next (step connector platform modelId))
      (StoresAndKeeps connector platform modelId)
      (CacheService.new geometry capacity nodeId metadata remoteIndex) calls)
    (collisionFree : CollisionFree platform
      (calls.flatMap (Call.hashedStrings platform modelId))) :
    outputs (step connector platform modelId)
        (CacheService.new geometry capacity nodeId metadata remoteIndex) calls =
      outputs idealStep [] calls ↔
    Allows (next idealStep) (ReadsBack platform modelId) [] calls := by
  have simulates (service : CacheService) (history : History) (call : Call)
      (allowed : StoresAndKeeps connector platform modelId service call ∧ call.Short)
      (retains : Retains platform service (contents platform modelId history)) :=
    step_simulates allowed.1 allowed.2 retains
  have start : Retains platform (CacheService.new geometry capacity nodeId metadata remoteIndex)
      (contents platform modelId []) :=
    new_retains platform firstPool capacity nodeId metadata vacant
  obtain ⟨sameAnswers, -⟩ :=
    outputs_eq_of_allowed_simulation simulates start (undisturbed.and_forall short)
  have sameNext (history : History) (call : Call) :
      (hashedStep platform modelId history call).1 = (idealStep history call).1 := by
    cases call <;> rfl
  rw [sameAnswers, outputs_eq_iff_allows sameNext]
  -- every key of the history was hashed when it was put
  refine @allows_congr _ _ _ _ _ (fun history : History => ∀ put ∈ history,
    ∀ text ∈ (Call.put 0 put.1 put.2).hashedStrings platform modelId,
      text ∈ calls.flatMap (Call.hashedStrings platform modelId)) calls ?_ ?_ [] ?_
  · intro history call inRun known
    cases call with
    | put now key value =>
        intro put member text hashed
        rcases List.mem_cons.mp member with rfl | old
        · exact List.mem_flatMap.mpr ⟨_, inRun, hashed⟩
        · exact known put old text hashed
    | contains key => exact known
    | get key => exact known
  · intro history call inRun known
    exact hashedStep_eq_iff collisionFree known fun text hashed =>
      List.mem_flatMap.mpr ⟨call, inRun, hashed⟩
  · intro put member
    cases member

/-- Without a model id a value is found and read back, and another key is not. -/
theorem connector_reads_its_writes_without_model :
    let calls : List Call := [.put 0 "a" [7], .contains "a", .get "a", .contains "b"]
    outputs (step .cmxRemoteConnector Platform.release "")
        (CacheService.new Geometry.twoBlocks 2 "node" false (some RemoteIndex.new)) calls =
      outputs idealStep [] calls := by
  intro calls
  refine (connector_reads_its_writes_iff .cmxRemoteConnector Platform.release Geometry.twoBlocks
    (by decide) 2 "node" false (some RemoteIndex.new) ?_ "" calls (by decide) (by decide +kernel)
    (by decide +kernel)).mpr ?_
  · rintro remote ⟨⟩
    rfl
  · exact ⟨trivial, Or.inl rfl, Or.inl rfl, Or.inl rfl, trivial⟩

/-- Under the model id `m` a connector does not see the value it has just put. -/
theorem connector_misses_its_writes_under_model :
    let calls : List Call := [.put 0 "a" [7], .contains "a", .get "a"]
    let service := CacheService.new Geometry.twoBlocks 2 "node" false (some RemoteIndex.new)
    Allows (next (step .cmxRemoteConnector Platform.release "m"))
        (StoresAndKeeps .cmxRemoteConnector Platform.release "m") service calls ∧
      CollisionFree Platform.release
        (calls.flatMap (Call.hashedStrings Platform.release "m")) ∧
      outputs (step .cmxRemoteConnector Platform.release "m") service calls =
        [.put (.ok ()), .contains (.ok false), .get (.ok none)] ∧
      outputs idealStep [] calls =
        [.put (.ok ()), .contains (.ok true), .get (.ok (some [7]))] := by
  decide +kernel

end CmxRdma.Client
