import CmxRdma.Lib.Calls
import CmxRdma.Transport.Mock

/-!
Contract: `pool.rs` of `cmx-transport`, the cache of connections over a transport.

Owns: `get_or_connect` and `disconnect` as whole calls and as the atomic steps
between their awaits, any number of them in flight at once, and the runs along
which every cached peer of a `MockTransport` is connected.

Does not own: the health check; the time a connection was made, which nothing reads.
-/

namespace CmxRdma.Transport

open CmxRdma.Lib.Calls
open CmxRdma.Lib.Transition

/-! ## Model -/

structure ConnectionState where
  transportType : TransportType
  addr : String
deriving DecidableEq

structure ConnectionPool (T : Type) where
  transport : T
  connections : AList fun _ : PeerId => ConnectionState

namespace ConnectionPool

variable {T : Type}

def new (transport : T) : ConnectionPool T where
  transport := transport
  connections := ∅

/-- A call in flight, named after the step it takes next. -/
inductive Thread where
  | getCheck (peer : PeerId) (addr : String)
  | getConnect (peer : PeerId) (addr : String)
  | getInsert (peer : PeerId) (addr : String) (transportType : TransportType)
  | disconnectRemove (peer : PeerId)
  | disconnectTransport (peer : PeerId)
  | got (peer : PeerId) (result : Except TransportError TransportType)
  | disconnected (peer : PeerId) (result : Except TransportError Unit)
deriving DecidableEq

inductive Call where
  | getOrConnect (peer : PeerId) (addr : String)
  | disconnect (peer : PeerId)

def Call.start : Call → Thread
  | .getOrConnect peer addr => .getCheck peer addr
  | .disconnect peer => .disconnectRemove peer

section Generic

variable [Transport T]

def getOrConnect (pool : ConnectionPool T) (peer : PeerId) (addr : String) :
    ConnectionPool T × Except TransportError TransportType :=
  match pool.connections.lookup peer with
  | some entry => (pool, .ok entry.transportType)
  | none =>
      match Transport.connect pool.transport peer addr with
      | (transport, .error error) => ({ pool with transport := transport }, .error error)
      | (transport, .ok transportType) =>
          (⟨transport, pool.connections.insert peer ⟨transportType, addr⟩⟩, .ok transportType)

def disconnect (pool : ConnectionPool T) (peer : PeerId) :
    ConnectionPool T × Except TransportError Unit :=
  (⟨(Transport.disconnect pool.transport peer).1, pool.connections.erase peer⟩,
    (Transport.disconnect pool.transport peer).2)

/-- The next atomic step of a call. -/
def advance (pool : ConnectionPool T) : Thread → ConnectionPool T × Thread
  | .getCheck peer addr =>
      match pool.connections.lookup peer with
      | some entry => (pool, .got peer (.ok entry.transportType))
      | none => (pool, .getConnect peer addr)
  | .getConnect peer addr =>
      match Transport.connect pool.transport peer addr with
      | (transport, .error error) => ({ pool with transport := transport }, .got peer (.error error))
      | (transport, .ok transportType) =>
          ({ pool with transport := transport }, .getInsert peer addr transportType)
  | .getInsert peer addr transportType =>
      ({ pool with connections := pool.connections.insert peer ⟨transportType, addr⟩ },
        .got peer (.ok transportType))
  | .disconnectRemove peer =>
      ({ pool with connections := pool.connections.erase peer }, .disconnectTransport peer)
  | .disconnectTransport peer =>
      ({ pool with transport := (Transport.disconnect pool.transport peer).1 },
        .disconnected peer (Transport.disconnect pool.transport peer).2)
  | .got peer result => (pool, .got peer result)
  | .disconnected peer result => (pool, .disconnected peer result)

/-! ## A call that runs alone -/

theorem alone_getOrConnect (pool : ConnectionPool T) (peer : PeerId) (addr : String) :
    ∃ count, alone advance count pool (Call.getOrConnect peer addr).start =
      ((pool.getOrConnect peer addr).1, .got peer (pool.getOrConnect peer addr).2) := by
  cases cached : pool.connections.lookup peer with
  | some entry =>
      refine ⟨1, ?_⟩
      simp only [alone_succ, Call.start, advance, getOrConnect, cached]
      rfl
  | none =>
      rcases connected : Transport.connect pool.transport peer addr with
        ⟨transport, error | transportType⟩
      · refine ⟨2, ?_⟩
        simp only [alone_succ, Call.start, advance, getOrConnect, cached, connected]
        rfl
      · refine ⟨3, ?_⟩
        simp only [alone_succ, Call.start, advance, getOrConnect, cached, connected]
        rfl

theorem alone_disconnect (pool : ConnectionPool T) (peer : PeerId) :
    alone advance 2 pool (Call.disconnect peer).start =
      ((pool.disconnect peer).1, .disconnected peer (pool.disconnect peer).2) := rfl

end Generic

/-! ## Cache and transport -/

/-- Every cached peer is connected in the transport. -/
def CacheConnected (pool : ConnectionPool MockTransport) : Prop :=
  ∀ peer ∈ pool.connections, peer ∈ pool.transport.connections

/-- The step meets no call halfway through the same peer: an insertion finds its peer
still connected, a disconnection in the transport finds it still out of the cache. -/
def Undisturbed (pool : ConnectionPool MockTransport) : Thread → Prop
  | .getInsert peer _ _ => peer ∈ pool.transport.connections
  | .disconnectTransport peer => peer ∉ pool.connections
  | _ => True

/-- Where every cached peer is connected, a step keeps it so exactly if it is
undisturbed. -/
theorem cacheConnected_advance_iff (pool : ConnectionPool MockTransport) (thread : Thread)
    (agrees : pool.CacheConnected) :
    (pool.advance thread).1.CacheConnected ↔ pool.Undisturbed thread := by
  cases thread with
  | getCheck peer addr =>
      refine iff_of_true ?_ trivial
      simp only [advance]
      cases pool.connections.lookup peer with
      | none => exact agrees
      | some entry => exact agrees
  | getConnect peer addr =>
      refine iff_of_true (fun other cached => ?_) trivial
      exact (pool.transport.mem_connections_connect peer other addr).mpr
        (Or.inr (agrees other cached))
  | getInsert peer addr transportType =>
      constructor
      · intro stillAgrees
        exact stillAgrees peer ((AList.mem_insert _).mpr (Or.inl rfl))
      · intro connected other cached
        rcases (AList.mem_insert _).mp cached with rfl | old
        · exact connected
        · exact agrees other old
  | disconnectRemove peer =>
      refine iff_of_true (fun other cached => ?_) trivial
      exact agrees other (AList.mem_erase.mp cached).2
  | disconnectTransport peer =>
      constructor
      · intro stillAgrees cached
        have gone := (pool.transport.mem_connections_disconnect peer peer).mp
          (stillAgrees peer cached)
        exact gone.1 rfl
      · intro uncached other cached
        refine (pool.transport.mem_connections_disconnect peer other).mpr
          ⟨?_, agrees other cached⟩
        rintro rfl
        exact uncached cached
  | got peer result => exact iff_of_true agrees trivial
  | disconnected peer result => exact iff_of_true agrees trivial

/-- A cached peer that is connected is returned at once, and transfers find it. -/
theorem CacheConnected.cached_usable {pool : ConnectionPool MockTransport}
    (agrees : pool.CacheConnected) {peer : PeerId} (cached : peer ∈ pool.connections) :
    (∀ addr, ∃ transportType, pool.getOrConnect peer addr = (pool, .ok transportType)) ∧
      ∀ remote : RemoteMemoryRegion, remote.peer = peer →
        (∀ localSize, pool.transport.read remote localSize ≠ .error (.peerNotFound peer.id)) ∧
        ∀ contents, (pool.transport.write contents remote).2 ≠ .error (.peerNotFound peer.id) := by
  constructor
  · intro addr
    obtain ⟨entry, found⟩ := Option.isSome_iff_exists.mp (AList.lookup_isSome.mpr cached)
    exact ⟨entry.transportType, by rw [getOrConnect, found]⟩
  · rintro remote rfl
    have connected := agrees remote.peer cached
    constructor
    · intro localSize missing
      exact (pool.transport.read_eq_peerNotFound_iff remote localSize).mp missing connected
    · intro contents missing
      exact (pool.transport.write_eq_peerNotFound_iff contents remote).mp missing connected

/-- Calls that run alone keep cache and transport together. -/
theorem CacheConnected.getOrConnect {pool : ConnectionPool MockTransport}
    (agrees : pool.CacheConnected) (peer : PeerId) (addr : String) :
    (pool.getOrConnect peer addr).1.CacheConnected := by
  rw [ConnectionPool.getOrConnect]
  cases pool.connections.lookup peer with
  | some entry => exact agrees
  | none =>
      intro other cached
      refine (pool.transport.mem_connections_connect peer other addr).mpr ?_
      exact ((AList.mem_insert _).mp cached).imp_right (agrees other)

theorem CacheConnected.disconnect {pool : ConnectionPool MockTransport}
    (agrees : pool.CacheConnected) (peer : PeerId) :
    (pool.disconnect peer).1.CacheConnected := by
  intro other cached
  obtain ⟨different, old⟩ := AList.mem_erase.mp cached
  exact (pool.transport.mem_connections_disconnect peer other).mpr ⟨different, agrees other old⟩

/-! ## Whole runs -/

/-- A pool over a fresh transport, with nothing in flight. -/
def idle : InFlight (ConnectionPool MockTransport) Thread := ⟨new .new, []⟩

/-- However calls interleave, every cached peer is connected in every state of a run
exactly when no insertion finds its peer disconnected again and no disconnection in
the transport finds its peer cached again. Along such a run, also once all calls have
returned, what `get_or_connect` takes from the cache can be read and written. The
equivalence is about the states on the way as well: a run that breaks the condition may
still end with cache and transport in agreement. -/
theorem cache_connected_iff (moves : List (Move Call)) :
    let step := step Call.start (advance (T := MockTransport))
    ((∀ before after, moves = before ++ after →
        (run step idle before).shared.CacheConnected) ↔
      Allows step (Meets Undisturbed) idle moves) ∧
    (Allows step (Meets Undisturbed) idle moves → ∀ before after, moves = before ++ after →
      let pool := (run step idle before).shared
      ∀ peer ∈ pool.connections,
        (∀ addr, ∃ transportType, pool.getOrConnect peer addr = (pool, .ok transportType)) ∧
        ∀ remote : RemoteMemoryRegion, remote.peer = peer →
          (∀ localSize, pool.transport.read remote localSize ≠ .error (.peerNotFound peer.id)) ∧
          ∀ contents,
            (pool.transport.write contents remote).2 ≠ .error (.peerNotFound peer.id)) := by
  intro step
  have fresh : idle.shared.CacheConnected := fun peer cached =>
    absurd cached (AList.notMem_empty peer)
  have everywhere := good_prefix_iff_allows Call.start cacheConnected_advance_iff fresh moves
  refine ⟨everywhere, ?_⟩
  intro allowed before after split pool peer cached
  exact (everywhere.mpr allowed before after split).cached_usable cached

/-- A `disconnect` slips between the connection a `get_or_connect` makes and its
insertion into the cache. -/
def slipBetween : List (Move Call) :=
  [.call (.getOrConnect ⟨"p"⟩ "p:1"), .advance 0, .advance 0,
    .call (.disconnect ⟨"p"⟩), .advance 1, .advance 1, .advance 0]

/-- Both calls have returned well, the peer is cached, and a read does not find it. -/
theorem cached_peer_not_found :
    let final := run (step Call.start advance) idle slipBetween
    final.threads = [.got ⟨"p"⟩ (.ok .mock), .disconnected ⟨"p"⟩ (.ok ())] ∧
      (final.shared.getOrConnect ⟨"p"⟩ "p:1").2 = .ok .mock ∧
      final.shared.transport.read ⟨⟨"p"⟩, 0, 1⟩ 1 = .error (.peerNotFound "p") ∧
      ¬ final.shared.CacheConnected := by
  intro final
  refine ⟨by decide +kernel, by decide +kernel, by decide +kernel, fun agrees => ?_⟩
  have connected : (⟨"p"⟩ : PeerId) ∈ final.shared.transport.connections :=
    agrees ⟨"p"⟩ (by decide +kernel)
  exact absurd connected (by decide +kernel)

end ConnectionPool

end CmxRdma.Transport
