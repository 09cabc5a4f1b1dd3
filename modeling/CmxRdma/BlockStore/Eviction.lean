import Mathlib.Data.List.AList
import CmxRdma.Platform

/-!
Contract: `cmx-block-store/src/eviction.rs`, the slab behind the LRU policy.

Owns: the slab entries, the free slots, the key index and the two ends of the
intrusive list, with `alloc_entry`, `unlink`, `push_front` and the bodies of
`touch`, `remove` and `evict_lru` that run under the policy's mutex. Every
slab access is checked: an access outside the slab is the panic the source's
indexing raises. The `free_indices` stack has its top at the end of the list.

Does not own: that no access panics and what order the list is in; see
`EvictionOrder`.
-/

namespace CmxRdma.BlockStore

structure LruEntry where
  prefixHash : PrefixHash
  prev : Option Nat
  next : Option Nat
deriving DecidableEq

structure LruInner where
  entries : List LruEntry
  freeIndices : List Nat
  index : AList (fun _ : PrefixHash => Nat)
  head : Option Nat
  tail : Option Nat

namespace LruInner

/-- `LruPolicy::new`. -/
def new : LruInner where
  entries := []
  freeIndices := []
  index := ∅
  head := none
  tail := none

/-- `self.entries[slot].prev = prev`. -/
def setPrev (inner : LruInner) (slot : Nat) (prev : Option Nat) : Except Panic LruInner :=
  if slot < inner.entries.length then
    .ok { inner with entries := inner.entries.modify slot fun entry => { entry with prev := prev } }
  else .error .indexOutOfBounds

/-- `self.entries[slot].next = next`. -/
def setNext (inner : LruInner) (slot : Nat) (next : Option Nat) : Except Panic LruInner :=
  if slot < inner.entries.length then
    .ok { inner with entries := inner.entries.modify slot fun entry => { entry with next := next } }
  else .error .indexOutOfBounds

def allocEntry (inner : LruInner) (prefixHash : PrefixHash) : Except Panic (Nat × LruInner) :=
  match inner.freeIndices.getLast? with
  | some slot =>
      if slot < inner.entries.length then
        .ok (slot, {
          inner with
          freeIndices := inner.freeIndices.dropLast
          entries := inner.entries.set slot ⟨prefixHash, none, none⟩ })
      else .error .indexOutOfBounds
  | none =>
      .ok (inner.entries.length,
        { inner with entries := inner.entries ++ [⟨prefixHash, none, none⟩] })

/-- The `prev` half of `unlink`: the predecessor, or the head, skips the node. -/
def bypassForward (inner : LruInner) (prev next : Option Nat) : Except Panic LruInner :=
  match prev with
  | some slot => inner.setNext slot next
  | none => .ok { inner with head := next }

/-- The `next` half of `unlink`: the successor, or the tail, skips the node. -/
def bypassBackward (inner : LruInner) (prev next : Option Nat) : Except Panic LruInner :=
  match next with
  | some slot => inner.setPrev slot prev
  | none => .ok { inner with tail := prev }

def unlink (inner : LruInner) (slot : Nat) : Except Panic LruInner :=
  match inner.entries[slot]? with
  | none => .error .indexOutOfBounds
  | some entry => do
      let inner ← inner.bypassForward entry.prev entry.next
      let inner ← inner.bypassBackward entry.prev entry.next
      let inner ← inner.setPrev slot none
      inner.setNext slot none

def pushFront (inner : LruInner) (slot : Nat) : Except Panic LruInner := do
  let inner ← inner.setPrev slot none
  let inner ← inner.setNext slot inner.head
  let inner ← match inner.head with
    | some oldHead => inner.setPrev oldHead (some slot)
    | none => pure inner
  return {
    inner with
    head := some slot
    tail := if inner.tail.isNone then some slot else inner.tail }

def touch (inner : LruInner) (prefixHash : PrefixHash) : Except Panic LruInner :=
  match inner.index.lookup prefixHash with
  | some slot => do
      let inner ← inner.unlink slot
      inner.pushFront slot
  | none => do
      let (slot, inner) ← inner.allocEntry prefixHash
      let inner ← inner.pushFront slot
      return { inner with index := inner.index.insert prefixHash slot }

def remove (inner : LruInner) (prefixHash : PrefixHash) : Except Panic LruInner :=
  match inner.index.lookup prefixHash with
  | some slot => do
      let inner ← { inner with index := inner.index.erase prefixHash }.unlink slot
      return { inner with freeIndices := inner.freeIndices ++ [slot] }
  | none => .ok inner

def evictLru (inner : LruInner) : Except Panic (Option PrefixHash × LruInner) :=
  match inner.tail with
  | none => .ok (none, inner)
  | some slot =>
      match inner.entries[slot]? with
      | none => .error .indexOutOfBounds
      | some entry => do
          let inner ← { inner with index := inner.index.erase entry.prefixHash }.unlink slot
          return (some entry.prefixHash, { inner with freeIndices := inner.freeIndices ++ [slot] })

end LruInner

end CmxRdma.BlockStore
