import CmxRdma.Platform

/-!
Contract: the messages of `cmx-proto/proto/cmx.proto` and the status type of the
gRPC layer, as the agent's handlers see them.

Owns: request and response records with the fields the handlers read or write,
the status codes, and the difference between an answered error, a panic and the
end of the process.

Does not own: wire encoding, `num_blocks` of a request and `source_node_id`,
which no handler reads, or how a client is told of a panicked handler.
-/

namespace CmxRdma.Proto

/-- `tonic::Code`. -/
inductive Code where
  | ok
  | cancelled
  | unknown
  | invalidArgument
  | deadlineExceeded
  | notFound
  | alreadyExists
  | permissionDenied
  | resourceExhausted
  | failedPrecondition
  | aborted
  | outOfRange
  | unimplemented
  | internal
  | unavailable
  | dataLoss
  | unauthenticated
deriving DecidableEq, Repr

structure Status where
  code : Code
  message : String
deriving DecidableEq, Repr

/-- Why a request got no answer: a status was returned, the handler panicked, or
the process aborted because the allocator had no buffer for it. -/
inductive Failure where
  | status (status : Status)
  | panic (panic : Panic)
  | abort
deriving DecidableEq, Repr

structure BlockLocation where
  nodeId : String
  offset : UInt64
  size : UInt64
  generationId : UInt64
deriving DecidableEq, Repr

structure LookupRequest where
  prefixHash : List UInt8
  modelId : String
deriving DecidableEq, Repr

structure LookupResponse where
  found : Bool
  blocks : List BlockLocation
  isLocal : Bool
deriving DecidableEq, Repr

structure BatchLookupRequest where
  prefixHashes : List (List UInt8)
  modelId : String
deriving DecidableEq, Repr

structure BatchLookupResponse where
  found : List Bool
  blocks : List BlockLocation
deriving DecidableEq, Repr

structure StoreHeader where
  prefixHash : List UInt8
  totalSize : UInt64
  modelId : String
deriving DecidableEq, Repr

inductive StorePayload where
  | header (header : StoreHeader)
  | data (chunk : List UInt8)
deriving DecidableEq, Repr

/-- A `oneof` may be left unset by the sender. -/
structure StoreRequest where
  payload : Option StorePayload
deriving DecidableEq, Repr

/-- The incoming messages of one Store; reading may also end with an error
status of the transport. -/
abbrev StoreStream : Type := List (Except Status StoreRequest)

/-- A Store as its protocol wants it: the header, then data only. -/
def storeMessages (header : StoreHeader) (chunks : List (List UInt8)) : StoreStream :=
  .ok ⟨some (.header header)⟩ :: chunks.map fun chunk => .ok ⟨some (.data chunk)⟩

structure StoreResponse where
  success : Bool
  errorMessage : String
  generationId : UInt64
deriving DecidableEq, Repr

structure GetRequest where
  prefixHash : List UInt8
  modelId : String
deriving DecidableEq, Repr

structure GetHeader where
  totalSize : UInt64
  numBlocks : UInt32
  generationId : UInt64
deriving DecidableEq, Repr

inductive GetPayload where
  | header (header : GetHeader)
  | data (chunk : List UInt8)
deriving DecidableEq, Repr

structure GetResponse where
  payload : Option GetPayload
deriving DecidableEq, Repr

/-- The messages of one Get, in order. -/
abbrev GetStream : Type := List (Except Status GetResponse)

structure DeleteRequest where
  prefixHash : List UInt8
deriving DecidableEq, Repr

structure DeleteResponse where
  success : Bool
  blocksFreed : UInt64
deriving DecidableEq, Repr

structure StatsResponse where
  totalBlocks : UInt64
  usedBlocks : UInt64
  cacheHits : UInt64
  cacheMisses : UInt64
  evictions : UInt64
  memoryUsedBytes : UInt64
  memoryTotalBytes : UInt64
deriving DecidableEq, Repr

structure HealthResponse where
  healthy : Bool
  nodeId : String
  version : String
  uptimeSeconds : UInt64
deriving DecidableEq, Repr

end CmxRdma.Proto
