import CmxRdma.Lib.ByteRegion
import CmxRdma.Lib.Transition
import CmxRdma.Transport.Mock

/-!
Contract: `mock.rs` as a stand-in for transfers to and from the memory of other nodes.

Owns: the fabric the mock stands for, in which every peer has one byte-addressed memory,
whole runs of calls on both, and the condition under which the mock answers as the
fabric would.

Does not own: the pool in front of a transport; see `ConnectionPool`.
-/

namespace CmxRdma.Transport

open CmxRdma.Lib.ByteRegion
open CmxRdma.Lib.Transition

/-! ## The fabric -/

/-- Connections, and the bytes of every peer at every address. -/
structure Fabric where
  connections : AList fun _ : PeerId => Unit
  memory : PeerId → Region

namespace Fabric

/-- The memory of the peers can hold anything at the start. -/
def new (memory : PeerId → Region) : Fabric where
  connections := ∅
  memory := memory

/-- Bytes arrive in the memory of a peer. -/
def place (fabric : Fabric) (peer : PeerId) (addr : UInt64) (bytes : List UInt8) : Fabric :=
  { fabric with
    memory := fun other =>
      if other = peer then writeBytes (fabric.memory peer) addr.toNat bytes
      else fabric.memory other }

/-- A read copies as many bytes as fit the buffer and the region. -/
def read (fabric : Fabric) (remote : RemoteMemoryRegion) (localSize : Nat) :
    Except TransportError (List UInt8) :=
  if remote.peer ∉ fabric.connections then .error (.peerNotFound remote.peer.id)
  else .ok (readBytes (fabric.memory remote.peer) remote.addr.toNat
    (min localSize remote.size.toNat))

theorem read_eq_peerNotFound_iff (fabric : Fabric) (remote : RemoteMemoryRegion)
    (localSize : Nat) :
    fabric.read remote localSize = .error (.peerNotFound remote.peer.id) ↔
      remote.peer ∉ fabric.connections := by
  by_cases connected : remote.peer ∈ fabric.connections
  · rw [read, if_neg (not_not_intro connected)]
    exact iff_of_false (by simp) (not_not_intro connected)
  · rw [read, if_pos connected]
    exact iff_of_true rfl connected

end Fabric

/-! ## Calls -/

/-- A call that changes a transport; reads change nothing. -/
inductive TransferCall where
  | connect (peer : PeerId) (addr : String)
  | disconnect (peer : PeerId)
  | write (contents : List UInt8) (remote : RemoteMemoryRegion)
  | insertRemoteMemory (peer : PeerId) (addr : UInt64) (data : List UInt8)

inductive TransferAnswer where
  | connected (result : Except TransportError TransportType)
  | disconnected (result : Except TransportError Unit)
  | written (result : Except TransportError Nat)
  | inserted

namespace MockTransport

def insertRemoteMemory (transport : MockTransport) (peer : PeerId) (addr : UInt64)
    (data : List UInt8) : MockTransport :=
  { transport with remoteMemory := transport.remoteMemory.insert (peer, addr) data }

def transfer (transport : MockTransport) : TransferCall → MockTransport × TransferAnswer
  | .connect peer addr =>
      ((transport.connect peer addr).1, .connected (transport.connect peer addr).2)
  | .disconnect peer => ((transport.disconnect peer).1, .disconnected (transport.disconnect peer).2)
  | .write contents remote =>
      ((transport.write contents remote).1, .written (transport.write contents remote).2)
  | .insertRemoteMemory peer addr data => (transport.insertRemoteMemory peer addr data, .inserted)

/-- No entry of the peer at another address reaches into the bytes from an address on. -/
def Clear (transport : MockTransport) (peer : PeerId) (addr : UInt64) (count : Nat) : Prop :=
  ∀ entry ∈ transport.remoteMemory.entries, entry.1.1 = peer → entry.1.2 ≠ addr →
    entry.1.2.toNat + entry.2.length ≤ addr.toNat ∨ addr.toNat + count ≤ entry.1.2.toNat

/-- The call writes to no address inside another entry, and over no other entry. -/
def Apart (transport : MockTransport) : TransferCall → Prop
  | .write contents remote =>
      transport.Clear remote.peer remote.addr (min contents.length remote.size.toNat)
  | .insertRemoteMemory peer addr data => transport.Clear peer addr data.length
  | _ => True

instance (transport : MockTransport) (call : TransferCall) : Decidable (transport.Apart call) :=
  match call with
  | .write _ _ | .insertRemoteMemory _ _ _ =>
      inferInstanceAs (Decidable (∀ entry ∈ transport.remoteMemory.entries, _ → _ → _))
  | .connect _ _ | .disconnect _ => inferInstanceAs (Decidable True)

end MockTransport

namespace Fabric

/-- The calls of the mock on the fabric. -/
def transfer (fabric : Fabric) : TransferCall → Fabric × TransferAnswer
  | .connect peer _ =>
      ({ fabric with connections := fabric.connections.insert peer () }, .connected (.ok .mock))
  | .disconnect peer =>
      if peer ∈ fabric.connections then
        ({ fabric with connections := fabric.connections.erase peer }, .disconnected (.ok ()))
      else (fabric, .disconnected (.error (.peerNotFound peer.id)))
  | .write contents remote =>
      let count := min contents.length remote.size.toNat
      if remote.peer ∈ fabric.connections then
        (fabric.place remote.peer remote.addr (contents.take count), .written (.ok count))
      else (fabric, .written (.error (.peerNotFound remote.peer.id)))
  | .insertRemoteMemory peer addr data => (fabric.place peer addr data, .inserted)

end Fabric

/-! ## The mock shows the fabric -/

/-- The same connections, and every entry of the mock is what the peer's memory has from
its address on. -/
structure MockTransport.Shows (transport : MockTransport) (fabric : Fabric) : Prop where
  connections : ∀ peer, peer ∈ transport.connections ↔ peer ∈ fabric.connections
  entries : ∀ peer addr data, transport.remoteMemory.lookup (peer, addr) = some data →
    readBytes (fabric.memory peer) addr.toNat data.length = data

namespace MockTransport

variable {transport : MockTransport} {fabric : Fabric}

/-- Bytes that overlap no other entry. -/
theorem Shows.place (shows : transport.Shows fabric) {peer : PeerId} {addr : UInt64}
    {bytes : List UInt8} (clear : transport.Clear peer addr bytes.length) :
    (transport.insertRemoteMemory peer addr bytes).Shows (fabric.place peer addr bytes) where
  connections := shows.connections
  entries := by
    intro other otherAddr data found
    simp only [Fabric.place]
    by_cases sameEntry : (other, otherAddr) = (peer, addr)
    · obtain ⟨rfl, rfl⟩ := Prod.mk.inj sameEntry
      rw [insertRemoteMemory, AList.lookup_insert, Option.some.injEq] at found
      rw [if_pos rfl, ← found, readBytes_writeBytes_self]
    · rw [insertRemoteMemory, AList.lookup_insert_ne sameEntry] at found
      by_cases samePeer : other = peer
      · subst samePeer
        have otherAddress : otherAddr ≠ addr := fun same => sameEntry (by rw [same])
        have apart := clear _ (AList.mem_lookup_iff.mp found) rfl otherAddress
        rw [if_pos rfl, readBytes_writeBytes_disjoint _ apart]
        exact shows.entries other otherAddr data found
      · rw [if_neg samePeer]
        exact shows.entries other otherAddr data found

theorem Shows.transfer (shows : transport.Shows fabric) {call : TransferCall}
    (apart : transport.Apart call) :
    (transport.transfer call).2 = (fabric.transfer call).2 ∧
      (transport.transfer call).1.Shows (fabric.transfer call).1 := by
  cases call with
  | connect peer addr =>
      refine ⟨rfl, ?_, shows.entries⟩
      intro other
      simp only [MockTransport.transfer, Fabric.transfer]
      rw [mem_connections_connect, AList.mem_insert, shows.connections]
  | disconnect peer =>
      by_cases connected : peer ∈ transport.connections
      · obtain ⟨_, found⟩ := Option.isSome_iff_exists.mp (AList.lookup_isSome.mpr connected)
        simp only [MockTransport.transfer, Fabric.transfer, disconnect, found,
          (shows.connections peer).mp connected, if_true]
        refine ⟨trivial, ?_, shows.entries⟩
        intro other
        rw [AList.mem_erase, AList.mem_erase, shows.connections]
      · have found := AList.lookup_eq_none.mpr connected
        simp only [MockTransport.transfer, Fabric.transfer, disconnect, found,
          mt (shows.connections peer).mpr connected, if_false]
        exact ⟨trivial, shows⟩
  | write contents remote =>
      by_cases connected : remote.peer ∈ transport.connections
      · simp only [MockTransport.transfer, Fabric.transfer, write, connected,
          (shows.connections remote.peer).mp connected, not_true_eq_false, if_true, if_false]
        refine ⟨trivial, Shows.place shows ?_⟩
        rw [List.length_take, Nat.min_eq_left (Nat.min_le_left _ _)]
        exact apart
      · simp only [MockTransport.transfer, Fabric.transfer, write, connected,
          mt (shows.connections remote.peer).mpr connected, not_false_eq_true, if_true, if_false]
        exact ⟨trivial, shows⟩
  | insertRemoteMemory peer addr data => exact ⟨rfl, shows.place apart⟩

/-- What a read of the mock copies is the front of what the fabric has there; what is
missing is what the entry is too short for. -/
theorem Shows.read (shows : transport.Shows fabric) {remote : RemoteMemoryRegion}
    {localSize : Nat} {bytes : List UInt8} (copied : transport.read remote localSize = .ok bytes) :
    ∃ data rest, transport.remoteMemory.lookup (remote.peer, remote.addr) = some data ∧
      fabric.read remote localSize = .ok (bytes ++ rest) ∧
      rest.length = min localSize remote.size.toNat - data.length := by
  by_cases connected : remote.peer ∈ transport.connections
  · rw [MockTransport.read, if_neg (not_not_intro connected)] at copied
    cases found : transport.remoteMemory.lookup (remote.peer, remote.addr) with
    | none =>
        rw [found] at copied
        cases copied
    | some data =>
        rw [found, Except.ok.injEq] at copied
        have shown := shows.entries remote.peer remote.addr data found
        generalize copiedEq : min (min localSize data.length) remote.size.toNat = count at copied
        have shorter : count ≤ data.length := by omega
        have front : bytes = readBytes (fabric.memory remote.peer) remote.addr.toNat count := by
          rw [← copied, ← take_readBytes _ shorter, shown]
        obtain ⟨more, split⟩ : ∃ more, min localSize remote.size.toNat = count + more :=
          Nat.exists_eq_add_of_le (by omega)
        refine ⟨data, readBytes (fabric.memory remote.peer) (remote.addr.toNat + count) more, rfl,
          ?_, ?_⟩
        · rw [Fabric.read, if_neg (not_not_intro ((shows.connections remote.peer).mp connected)),
            split, readBytes_add, ← front]
        · rw [readBytes_length]
          omega
  · rw [MockTransport.read, if_pos connected] at copied
    cases copied

/-- A read at an address where no entry starts fails, also inside an entry. -/
theorem read_eq_transferFailed_iff (transport : MockTransport) (remote : RemoteMemoryRegion)
    (localSize : Nat) :
    (∃ reason, transport.read remote localSize = .error (.transferFailed reason)) ↔
      remote.peer ∈ transport.connections ∧
        transport.remoteMemory.lookup (remote.peer, remote.addr) = none := by
  by_cases connected : remote.peer ∈ transport.connections
  · rw [MockTransport.read, if_neg (not_not_intro connected)]
    cases transport.remoteMemory.lookup (remote.peer, remote.addr) with
    | none => exact iff_of_true ⟨_, rfl⟩ ⟨connected, rfl⟩
    | some data => simp
  · rw [MockTransport.read, if_pos connected]
    exact iff_of_false (by simp) fun both => connected both.1

/-- A read looks at the entry of its own address only. -/
theorem read_write_of_ne (transport : MockTransport) (contents : List UInt8)
    {other remote : RemoteMemoryRegion}
    (elsewhere : (remote.peer, remote.addr) ≠ (other.peer, other.addr)) (localSize : Nat) :
    (transport.write contents other).1.read remote localSize =
      transport.read remote localSize := by
  by_cases connected : other.peer ∈ transport.connections
  · rw [MockTransport.write, if_neg (not_not_intro connected)]
    simp only [MockTransport.read, AList.lookup_insert_ne elsewhere]
  · rw [MockTransport.write, if_pos connected]

/-- Along every run in which no write and no insertion overlaps an entry at another
address, the mock answers as a fabric with byte-addressed memory does, whatever that
memory held before: every call that changes it gets the same answer, and what a read
copies is what the memory has at these addresses, up to the end of the bytes that were
last given at exactly that address. Where none were given the mock has no memory and
the read fails, and a write to another address, overlapping or not, changes no read. -/
theorem mock_refines_fabric (memory : PeerId → Region) {calls : List TransferCall}
    (apart : Allows (next transfer) Apart MockTransport.new calls) :
    let mock := run (next transfer) MockTransport.new calls
    let fabric := run (next Fabric.transfer) (Fabric.new memory) calls
    outputs transfer MockTransport.new calls = outputs Fabric.transfer (Fabric.new memory) calls ∧
      ∀ remote localSize,
        (mock.read remote localSize = .error (.peerNotFound remote.peer.id) ↔
          fabric.read remote localSize = .error (.peerNotFound remote.peer.id)) ∧
        ((∃ reason, mock.read remote localSize = .error (.transferFailed reason)) ↔
          remote.peer ∈ mock.connections ∧
            mock.remoteMemory.lookup (remote.peer, remote.addr) = none) ∧
        (∀ bytes, mock.read remote localSize = .ok bytes →
          ∃ data rest, mock.remoteMemory.lookup (remote.peer, remote.addr) = some data ∧
            fabric.read remote localSize = .ok (bytes ++ rest) ∧
            rest.length = min localSize remote.size.toNat - data.length) ∧
        ∀ contents other, (remote.peer, remote.addr) ≠ (other.peer, other.addr) →
          (mock.write contents other).1.read remote localSize = mock.read remote localSize := by
  intro mock fabric
  have initial : MockTransport.new.Shows (Fabric.new memory) :=
    ⟨fun peer => Iff.rfl, fun peer addr data found => by cases found⟩
  obtain ⟨answers, shows⟩ := @outputs_eq_of_allowed_simulation _ _ _ _ transfer Fabric.transfer
    Apart Shows (fun _ _ _ callApart related => related.transfer callApart) _ _ initial _ apart
  refine ⟨answers, fun remote localSize => ⟨?_, mock.read_eq_transferFailed_iff remote localSize,
    fun bytes => shows.read, fun contents other elsewhere => ?_⟩⟩
  · rw [read_eq_peerNotFound_iff, shows.connections]
    exact (fabric.read_eq_peerNotFound_iff remote localSize).symm
  · exact mock.read_write_of_ne contents elsewhere localSize

/-- Two writes of neighbouring blocks, the first one repeated with fewer bytes: a read of
the whole block gives the new byte and none of the old ones. -/
theorem mock_refines_fabric_of_shorter_write :
    let peer : PeerId := ⟨"b"⟩
    let calls : List TransferCall :=
      [.connect peer "b:1", .write [1, 2, 3] ⟨peer, 0, 3⟩, .write [7] ⟨peer, 3, 2⟩,
        .write [4] ⟨peer, 0, 3⟩]
    outputs transfer MockTransport.new calls =
        outputs Fabric.transfer (Fabric.new fun _ _ => 9) calls ∧
      ∃ rest, (run (next Fabric.transfer) (Fabric.new fun _ _ => 9) calls).read ⟨peer, 0, 3⟩ 3 =
        .ok ([4] ++ rest) ∧ rest.length = 2 := by
  intro peer calls
  obtain ⟨answers, reads⟩ := @mock_refines_fabric (fun _ _ => 9) calls (by decide)
  obtain ⟨data, rest, found, copied, missing⟩ := (reads ⟨peer, 0, 3⟩ 3).2.2.1 [4] (by decide)
  obtain rfl : data = [4] := Option.some.inj (found.symm.trans (by decide))
  exact ⟨answers, rest, copied, missing⟩

/-- A write into the middle of an entry leaves the entry as it was. -/
theorem overlapping_write_unseen :
    let peer : PeerId := ⟨"b"⟩
    let calls : List TransferCall :=
      [.connect peer "b:1", .write [1, 2] ⟨peer, 0, 2⟩, .write [3] ⟨peer, 1, 1⟩]
    (run (next transfer) MockTransport.new calls).read ⟨peer, 0, 2⟩ 2 = .ok [1, 2] ∧
      (run (next Fabric.transfer) (Fabric.new fun _ _ => 9) calls).read ⟨peer, 0, 2⟩ 2 =
        .ok [1, 3] := by
  decide

end MockTransport

end CmxRdma.Transport
