import Mathlib.Data.List.AList

/-!
Contract: the transport trait of `cmx-transport` and its in-process implementation,
`mock.rs`.

Owns: peers, transport types and errors, and `MockTransport`: its connections, its
simulated remote memory, and when a transfer finds its peer.

Does not own: memory registration, which no transfer looks at; the locks, as each
method holds one lock at a time and the ones between awaits are single steps.
-/

namespace CmxRdma

namespace Transport

structure PeerId where
  id : String
deriving DecidableEq, Repr

structure RemoteMemoryRegion where
  peer : PeerId
  addr : UInt64
  size : UInt64
deriving DecidableEq

inductive TransportError where
  | connectionFailed (peer reason : String)
  | transferFailed (reason : String)
  | peerNotFound (peer : String)
  | timeout (milliseconds : UInt64)
  | notAvailable (reason : String)
deriving DecidableEq, Repr

inductive TransportType where
  | infiniBand
  | roCEv2
  | tcp
  | mock
deriving DecidableEq, Repr

end Transport

open Transport in
/-- The methods of the trait that move connections and data. A buffer is given by
what it holds, or by its size where it is to be filled. -/
class Transport (T : Type) where
  connect : T → PeerId → String → T × Except TransportError TransportType
  disconnect : T → PeerId → T × Except TransportError Unit
  read : T → RemoteMemoryRegion → Nat → Except TransportError (List UInt8)
  write : T → List UInt8 → RemoteMemoryRegion → T × Except TransportError Nat

namespace Transport

structure MockTransport where
  connections : AList fun _ : PeerId => Unit
  remoteMemory : AList fun _ : PeerId × UInt64 => List UInt8

namespace MockTransport

def new : MockTransport where
  connections := ∅
  remoteMemory := ∅

def connect (transport : MockTransport) (peer : PeerId) (_addr : String) :
    MockTransport × Except TransportError TransportType :=
  ({ transport with connections := transport.connections.insert peer () }, .ok .mock)

def disconnect (transport : MockTransport) (peer : PeerId) :
    MockTransport × Except TransportError Unit :=
  match transport.connections.lookup peer with
  | none => (transport, .error (.peerNotFound peer.id))
  | some () => ({ transport with connections := transport.connections.erase peer }, .ok ())

/-- The format `{:#x}`. -/
def alternateHex (number : UInt64) : String :=
  "0x" ++ String.ofList (Nat.toDigits 16 number.toNat)

/-- The bytes `read` copies into a buffer of a size. -/
def read (transport : MockTransport) (remote : RemoteMemoryRegion) (localSize : Nat) :
    Except TransportError (List UInt8) :=
  if remote.peer ∉ transport.connections then .error (.peerNotFound remote.peer.id)
  else
    match transport.remoteMemory.lookup (remote.peer, remote.addr) with
    | none =>
        .error (.transferFailed ("no remote memory at addr " ++ alternateHex remote.addr ++
          " for peer " ++ remote.peer.id))
    | some data => .ok (data.take (min (min localSize data.length) remote.size.toNat))

def write (transport : MockTransport) (contents : List UInt8) (remote : RemoteMemoryRegion) :
    MockTransport × Except TransportError Nat :=
  if remote.peer ∉ transport.connections then (transport, .error (.peerNotFound remote.peer.id))
  else
    let bytesToCopy := min contents.length remote.size.toNat
    ({ transport with
        remoteMemory := transport.remoteMemory.insert (remote.peer, remote.addr)
          (contents.take bytesToCopy) }, .ok bytesToCopy)

instance : Transport MockTransport where
  connect := connect
  disconnect := disconnect
  read := read
  write := write

/-! ## Connections -/

theorem mem_connections_connect (transport : MockTransport) (peer other : PeerId)
    (addr : String) :
    other ∈ (transport.connect peer addr).1.connections ↔
      other = peer ∨ other ∈ transport.connections :=
  AList.mem_insert transport.connections

theorem mem_connections_disconnect (transport : MockTransport) (peer other : PeerId) :
    other ∈ (transport.disconnect peer).1.connections ↔
      other ≠ peer ∧ other ∈ transport.connections := by
  rw [disconnect]
  cases found : transport.connections.lookup peer with
  | none =>
      refine (and_iff_right_of_imp ?_).symm
      rintro present rfl
      exact AList.lookup_eq_none.mp found present
  | some _ => exact AList.mem_erase

/-- A transfer finds its peer exactly if it is connected. -/
theorem read_eq_peerNotFound_iff (transport : MockTransport) (remote : RemoteMemoryRegion)
    (localSize : Nat) :
    transport.read remote localSize = .error (.peerNotFound remote.peer.id) ↔
      remote.peer ∉ transport.connections := by
  by_cases connected : remote.peer ∈ transport.connections
  · rw [read, if_neg (not_not_intro connected)]
    refine iff_of_false ?_ (not_not_intro connected)
    cases transport.remoteMemory.lookup (remote.peer, remote.addr) with
    | none => simp
    | some data => simp
  · rw [read, if_pos connected]
    exact iff_of_true rfl connected

theorem write_eq_peerNotFound_iff (transport : MockTransport) (contents : List UInt8)
    (remote : RemoteMemoryRegion) :
    (transport.write contents remote).2 = .error (.peerNotFound remote.peer.id) ↔
      remote.peer ∉ transport.connections := by
  by_cases connected : remote.peer ∈ transport.connections
  · rw [write, if_neg (not_not_intro connected)]
    exact iff_of_false (by simp) (not_not_intro connected)
  · rw [write, if_pos connected]
    exact iff_of_true rfl connected

end MockTransport

end Transport

end CmxRdma
