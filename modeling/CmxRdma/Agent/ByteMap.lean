import CmxRdma.Agent.Grpc
import CmxRdma.Lib.RecencyMap

/-!
Contract: what the cache service is for, as a bounded map from keys to bytes.

Owns: the recency-ordered map with a generation for every entry, its answers to
the five requests, and the step relation in which a Store may fail.

Does not own: blocks, offsets, headers and checksums. A location is shown
without its offset; how many Stores fail is left to the implementation.
-/

namespace CmxRdma.Agent

open CmxRdma.Lib
open CmxRdma.Proto

/-- What the map keeps under a key. -/
structure Stored where
  bytes : List UInt8
  generation : Nat

/-- Entries by recency, under distinct keys, each older than `next`. -/
structure ByteMap where
  entries : List (PrefixHash × Stored)
  next : Nat
  nodup : (entries.map Prod.fst).Nodup
  fresh : ∀ entry ∈ entries, entry.2.generation < next

namespace ByteMap

def new : ByteMap where
  entries := []
  next := 1
  nodup := List.nodup_nil
  fresh := fun _ member => absurd member List.not_mem_nil

def find (map : ByteMap) (key : PrefixHash) : Option Stored :=
  RecencyMap.find key map.entries

/-- A hit moves its key to the front; a miss changes nothing. -/
def bring (map : ByteMap) (key : PrefixHash) : ByteMap where
  entries := RecencyMap.bring key map.entries
  next := map.next
  nodup := RecencyMap.keys_bring_nodup map.nodup
  fresh := fun entry member => map.fresh entry (RecencyMap.mem_of_mem_bring member)

def erase (map : ByteMap) (key : PrefixHash) : ByteMap where
  entries := RecencyMap.erase key map.entries
  next := map.next
  nodup := RecencyMap.keys_erase_nodup map.nodup
  fresh := fun entry member => map.fresh entry (RecencyMap.mem_of_mem_erase member)

/-- Put bytes in front under a fresh generation; a new key that meets `capacity`
entries pushes out the least recent one. -/
def put (capacity : Nat) (map : ByteMap) (key : PrefixHash) (bytes : List UInt8) : ByteMap where
  entries := (RecencyMap.put capacity key ⟨bytes, map.next⟩ map.entries).2
  next := map.next + 1
  nodup := RecencyMap.keys_put_nodup map.nodup
  fresh := by
    intro entry member
    rcases RecencyMap.mem_of_mem_put member with rfl | old
    · exact Nat.lt_succ_self _
    · exact Nat.lt_succ_of_lt (map.fresh entry old)

@[simp] theorem bring_entries (map : ByteMap) (key : PrefixHash) :
    (map.bring key).entries = RecencyMap.bring key map.entries := rfl

@[simp] theorem erase_entries (map : ByteMap) (key : PrefixHash) :
    (map.erase key).entries = RecencyMap.erase key map.entries := rfl

@[simp] theorem put_entries (capacity : Nat) (map : ByteMap) (key : PrefixHash)
    (bytes : List UInt8) :
    (map.put capacity key bytes).entries =
      (RecencyMap.put capacity key ⟨bytes, map.next⟩ map.entries).2 := rfl

/-! ## Answers -/

section Answers

variable (platform : Platform) (nodeId : String) (blockSize : UInt64)

/-- The location shown for an entry. Generations travel as 64-bit numbers. -/
def shownLocation (stored : Stored) : Proto.BlockLocation where
  nodeId := nodeId
  offset := 0
  size := blockSize
  generationId := UInt64.ofNat stored.generation

def lookup (map : ByteMap) (request : LookupRequest) : ByteMap × Except Status LookupResponse :=
  match parsePrefixHash request.prefixHash with
  | .error status => (map, .error status)
  | .ok prefixHash =>
      let key := compositeKey platform request.modelId prefixHash
      (map.bring key,
        match map.find key with
        | some stored => .ok ⟨true, [shownLocation nodeId blockSize stored], true⟩
        | none => .ok ⟨false, [], false⟩)

/-- The keys of a batch are looked up in order, up to the first malformed one. -/
def batchLookupFrom (modelId : String) : ByteMap → List (List UInt8) → List Bool →
    List Proto.BlockLocation → ByteMap × Except Status BatchLookupResponse
  | map, [], found, blocks => (map, .ok ⟨found, blocks⟩)
  | map, rawHash :: rest, found, blocks =>
      match parsePrefixHash rawHash with
      | .error status => (map, .error status)
      | .ok prefixHash =>
          let key := compositeKey platform modelId prefixHash
          let shown := (map.find key).map (shownLocation nodeId blockSize)
          batchLookupFrom modelId (map.bring key) rest (found ++ [shown.isSome])
            (blocks ++ shown.toList)

/-- A Get streams one header and the stored bytes. -/
def get (map : ByteMap) (request : GetRequest) : ByteMap × Except Status GetStream :=
  match parsePrefixHash request.prefixHash with
  | .error status => (map, .error status)
  | .ok prefixHash =>
      let key := compositeKey platform request.modelId prefixHash
      (map.bring key,
        match map.find key with
        | some stored =>
            .ok [.ok ⟨some (.header ⟨blockSize, 1, UInt64.ofNat stored.generation⟩)⟩,
              .ok ⟨some (.data stored.bytes)⟩]
        | none => .error ⟨.notFound, "prefix hash not found in cache"⟩)

/-- A Delete erases the entry whose key is the prefix hash itself. -/
def delete (map : ByteMap) (request : DeleteRequest) : ByteMap × Except Failure DeleteResponse :=
  match parsePrefixHash request.prefixHash with
  | .error status => (map, .error (.status status))
  | .ok prefixHash =>
      (map.erase prefixHash,
        match map.find prefixHash with
        | some _ => .ok ⟨true, 1⟩
        | none => .ok ⟨false, 0⟩)

/-- The messages of a Store that carries a header and bytes: the header first,
then chunks, some of which may be left unset. -/
def Carries (stream : StoreStream) (header : StoreHeader) (bytes : List UInt8) : Prop :=
  ∃ chunks : List (Option (List UInt8)),
    stream = .ok ⟨some (.header header)⟩ ::
        chunks.map (fun chunk => .ok ⟨chunk.map StorePayload.data⟩) ∧
      bytes = (chunks.map fun chunk => chunk.getD []).flatten

variable (capacity : Nat)

/-- One event of the map. A Store fails and changes nothing, or puts what it
carries; everything else is determined. -/
inductive Step : ByteMap → Event → ByteMap → Option Response → Prop where
  | lookup (map : ByteMap) (request : LookupRequest) :
      Step map (.request (.lookup request)) (map.lookup platform nodeId blockSize request).1
        (some (.lookup (map.lookup platform nodeId blockSize request).2))
  | batchLookup (map : ByteMap) (request : BatchLookupRequest) :
      Step map (.request (.batchLookup request))
        (batchLookupFrom platform nodeId blockSize request.modelId map request.prefixHashes [] []).1
        (some (.batchLookup
          (batchLookupFrom platform nodeId blockSize request.modelId map request.prefixHashes
            [] []).2))
  | get (map : ByteMap) (request : GetRequest) :
      Step map (.request (.get request)) (map.get platform blockSize request).1
        (some (.get (map.get platform blockSize request).2))
  | delete (map : ByteMap) (request : DeleteRequest) :
      Step map (.request (.delete request)) (map.delete request).1
        (some (.delete (map.delete request).2))
  | storeFails (map : ByteMap) (now : UInt64) (stream : StoreStream) (failure : Failure) :
      Step map (.request (.store now stream)) map (some (.store (.error failure)))
  | storePuts (map : ByteMap) (now : UInt64) {stream : StoreStream} {header : StoreHeader}
      {bytes : List UInt8} {prefixHash : PrefixHash} (carries : Carries stream header bytes)
      (parsed : parsePrefixHash header.prefixHash = .ok prefixHash) :
      Step map (.request (.store now stream))
        (map.put capacity (compositeKey platform header.modelId prefixHash) bytes)
        (some (.store (.ok ⟨true, "", UInt64.ofNat map.next⟩)))
  | pressure (map : ByteMap) (level : UInt8) : Step map (.pressure level) map none
  | remote (map : ByteMap) (contents : RemoteIndex) : Step map (.remote contents) map none

end Answers

end ByteMap

/-! ## What the map does not show -/

def withoutOffset (location : Proto.BlockLocation) : Proto.BlockLocation :=
  { location with offset := 0 }

/-- An answer without the offsets of its locations. -/
def Response.withoutOffsets : Response → Response
  | .lookup answer =>
      .lookup (answer.map fun found => { found with blocks := found.blocks.map withoutOffset })
  | .batchLookup answer =>
      .batchLookup (answer.map fun found => { found with blocks := found.blocks.map withoutOffset })
  | .store answer => .store answer
  | .get answer => .get answer
  | .delete answer => .delete answer

end CmxRdma.Agent
