import CmxRdma.Lib.History
import CmxRdma.Transport.ConnectionPool

/-!
Contract: the health check of `pool.rs` over `MockTransport`, with the lock of the
transport's connections.

Owns: `transport_type` under the lock, sweeps of the health check as steps between
the pool's and the transport's own connects and disconnects, who holds the lock, and
the runs along which a sweep drops only peers that were not connected when checked.

Does not own: the timer of the sweeps; transfers, which hold the lock for reading. A
transfer alone lets a check through, but the lock is fair: once a writer waits behind a
transfer, `try_read` fails as well, and that wait is not a state of this model. A sweep
takes its peers from an iteration over the cache that other calls interleave with, so the
list it goes through is any list.
-/

namespace CmxRdma.Transport

open CmxRdma.Lib.Calls
open CmxRdma.Lib.History
open CmxRdma.Lib.Transition

/-! ## Model -/

/-- `transport_type`: no answer for an unknown peer, nor while a writer holds the lock
and `try_read` fails. -/
def MockTransport.transportType (transport : MockTransport) (writing : Bool) (peer : PeerId) :
    Option TransportType :=
  if writing then none else if peer ∈ transport.connections then some .mock else none

theorem MockTransport.transportType_eq_none_iff (transport : MockTransport) (writing : Bool)
    (peer : PeerId) :
    transport.transportType writing peer = none ↔
      writing = true ∨ peer ∉ transport.connections := by
  cases writing <;> simp [transportType]

namespace HealthCheck

/-- The pool and whether a writer holds the lock of the transport's connections. -/
structure LockedPool where
  pool : ConnectionPool MockTransport
  writing : Bool

/-- A call of the pool, or one made on the transport itself. -/
inductive Client where
  | pool (thread : ConnectionPool.Thread)
  | connect (peer : PeerId) (addr : String)
  | disconnect (peer : PeerId)
  | connected (result : Except TransportError TransportType)
  | disconnected (result : Except TransportError Unit)
deriving DecidableEq

/-- The next step of a call is inside `connect` or `disconnect` of the transport. -/
def Client.writes : Client → Bool
  | .pool (.getConnect _ _) => true
  | .pool (.disconnectTransport _) => true
  | .connect _ _ => true
  | .disconnect _ => true
  | _ => false

/-- The step itself. -/
def Client.advance (pool : ConnectionPool MockTransport) :
    Client → ConnectionPool MockTransport × Client
  | .pool thread => ((pool.advance thread).1, .pool (pool.advance thread).2)
  | .connect peer addr =>
      ({ pool with transport := (pool.transport.connect peer addr).1 },
        .connected (pool.transport.connect peer addr).2)
  | .disconnect peer =>
      ({ pool with transport := (pool.transport.disconnect peer).1 },
        .disconnected (pool.transport.disconnect peer).2)
  | .connected result => (pool, .connected result)
  | .disconnected result => (pool, .disconnected result)

/-- A thread: a call outside the lock, one that has taken it, one about to give it
back, or a sweep with the peers it still has to check. -/
inductive Thread where
  | outside (client : Client)
  | holding (client : Client)
  | releasing (client : Client)
  | sweep (peers : List PeerId)
  | sweepRemove (peer : PeerId) (rest : List PeerId)
deriving DecidableEq

inductive Call where
  | pool (call : ConnectionPool.Call)
  | connect (peer : PeerId) (addr : String)
  | disconnect (peer : PeerId)
  | sweep (peers : List PeerId)

def Call.start : Call → Thread
  | .pool call => .outside (.pool call.start)
  | .connect peer addr => .outside (.connect peer addr)
  | .disconnect peer => .outside (.disconnect peer)
  | .sweep peers => .sweep peers

/-- The next atomic step of a thread. -/
def advance (state : LockedPool) : Thread → LockedPool × Thread
  | .outside client =>
      if client.writes then
        -- `write().await` waits until the lock is free
        if state.writing then (state, .outside client)
        else ({ state with writing := true }, .holding client)
      else ({ state with pool := (client.advance state.pool).1 },
        .outside (client.advance state.pool).2)
  | .holding client =>
      ({ state with pool := (client.advance state.pool).1 },
        .releasing (client.advance state.pool).2)
  | .releasing client => ({ state with writing := false }, .outside client)
  | .sweep [] => (state, .sweep [])
  | .sweep (peer :: rest) =>
      match state.pool.transport.transportType state.writing peer with
      | some _ => (state, .sweep rest)
      | none => (state, .sweepRemove peer rest)
  | .sweepRemove peer rest =>
      ({ state with
          pool := { state.pool with connections := state.pool.connections.erase peer } },
        .sweep rest)

/-- A pool over a fresh transport, nobody in the lock and nothing in flight. -/
def idle : InFlight LockedPool Thread := ⟨⟨.new .new, false⟩, []⟩

abbrev system : InFlight LockedPool Thread → Move Call → InFlight LockedPool Thread :=
  step Call.start advance

/-! ## The lock -/

/-- With the lock free, a step under the lock is the step itself. -/
theorem alone_locked (pool : ConnectionPool MockTransport) {client : Client}
    (writes : client.writes = true) :
    alone advance 3 ⟨pool, false⟩ (.outside client) =
      (⟨(client.advance pool).1, false⟩, .outside (client.advance pool).2) := by
  have taken : advance ⟨pool, false⟩ (.outside client) = (⟨pool, true⟩, .holding client) := by
    simp [advance, writes]
  rw [alone_succ, taken]
  rfl

/-- A step outside the lock is the step itself. -/
theorem advance_outside (state : LockedPool) {client : Client} (reads : client.writes = false) :
    advance state (.outside client) =
      ({ state with pool := (client.advance state.pool).1 },
        .outside (client.advance state.pool).2) := by
  simp [advance, reads]

/-- The thread is in the lock. -/
def Thread.holds : Thread → Bool
  | .holding _ => true
  | .releasing _ => true
  | _ => false

/-- A step moves the lock and the count of its holders alike. -/
theorem holders_advance (state : LockedPool) (thread : Thread)
    (taken : thread.holds = true → state.writing = true) :
    (advance state thread).1.writing.toNat + thread.holds.toNat =
      state.writing.toNat + (advance state thread).2.holds.toNat := by
  cases thread with
  | outside client =>
      cases writes : client.writes
      · simp [advance_outside state writes, Thread.holds]
      · cases writing : state.writing <;> simp [advance, writes, writing, Thread.holds]
  | holding client => simp [advance, Thread.holds]
  | releasing client => simp [advance, Thread.holds, taken rfl]
  | sweep peers =>
      cases peers with
      | nil => rfl
      | cons peer rest =>
          simp only [advance]
          cases state.pool.transport.transportType state.writing peer <;> rfl
  | sweepRemove peer rest => rfl

/-- The lock is marked as held exactly when one thread is in it, and never by two. -/
theorem holders_run (moves : List (Move Call)) :
    (run system idle moves).threads.countP Thread.holds =
      (run system idle moves).shared.writing.toNat := by
  refine @run_invariant _ _ system
    (fun state => state.threads.countP Thread.holds = state.shared.writing.toNat) ?_ idle rfl moves
  intro state move counted
  cases move with
  | call call => cases call <;> simpa [step, Call.start, Thread.holds] using counted
  | advance position =>
      cases selected : state.threads[position]? with
      | none => simpa only [step, selected] using counted
      | some thread =>
          obtain ⟨inside, isThread⟩ := List.getElem?_eq_some_iff.mp selected
          have member : thread ∈ state.threads := isThread ▸ List.getElem_mem inside
          have taken : thread.holds = true → state.shared.writing = true := by
            intro holds
            have some := List.countP_pos_iff.mpr ⟨thread, member, holds⟩
            cases writing : state.shared.writing
            · rw [counted, writing] at some
              exact absurd some (Nat.lt_irrefl 0)
            · rfl
          have moved := holders_advance state.shared thread taken
          have bounded : thread.holds.toNat ≤ state.shared.writing.toNat := by
            cases holds : thread.holds
            · exact Nat.zero_le _
            · rw [taken holds]
          have asNumber : ∀ flag : Bool, (if flag = true then 1 else 0) = flag.toNat := by decide
          simp only [step, selected]
          rw [List.countP_set inside, isThread, counted, asNumber, asNumber]
          omega

/-! ## What a sweep removes -/

/-- The thread is a sweep. -/
def Thread.Sweeps : Thread → Prop
  | .sweep _ => True
  | .sweepRemove _ _ => True
  | _ => False

/-- A sweep takes a peer out of the cache only in the step after a check. -/
theorem sweepRemove_of_removes {state : LockedPool} {thread : Thread} {peer : PeerId}
    (sweeps : thread.Sweeps) (cached : peer ∈ state.pool.connections)
    (gone : peer ∉ (advance state thread).1.pool.connections) :
    ∃ rest, thread = .sweepRemove peer rest := by
  cases thread with
  | outside client => exact absurd sweeps (by simp [Thread.Sweeps])
  | holding client => exact absurd sweeps (by simp [Thread.Sweeps])
  | releasing client => exact absurd sweeps (by simp [Thread.Sweeps])
  | sweep peers =>
      refine absurd cached ?_
      cases peers with
      | nil => exact gone
      | cons checked rest =>
          simp only [advance] at gone
          cases answer : state.pool.transport.transportType state.writing checked with
          | none => simpa only [answer] using gone
          | some transportType => simpa only [answer] using gone
  | sweepRemove removed rest =>
      have same : peer = removed := by
        by_contra different
        exact gone (AList.mem_erase.mpr ⟨different, cached⟩)
      exact ⟨rest, by rw [same]⟩

/-- A thread is about to remove a peer only after it checked the peer and got no
answer. -/
theorem sweep_of_advance_eq_sweepRemove {state : LockedPool} {thread : Thread} {peer : PeerId}
    {rest : List PeerId} (checked : (advance state thread).2 = .sweepRemove peer rest) :
    thread = .sweep (peer :: rest) ∧
      state.pool.transport.transportType state.writing peer = none := by
  cases thread with
  | outside client =>
      simp only [advance] at checked
      split_ifs at checked
  | holding client => cases checked
  | releasing client => cases checked
  | sweep peers =>
      cases peers with
      | nil => cases checked
      | cons first others =>
          simp only [advance] at checked
          cases answer : state.pool.transport.transportType state.writing first with
          | none =>
              simp only [answer, Thread.sweepRemove.injEq] at checked
              obtain ⟨rfl, rfl⟩ := checked
              exact ⟨rfl, answer⟩
          | some transportType =>
              simp only [answer] at checked
              cases checked
  | sweepRemove removed others => cases checked

/-- Under the lock every check goes unanswered. -/
theorem advance_sweep_locked {state : LockedPool} (locked : state.writing = true) (peer : PeerId)
    (rest : List PeerId) :
    advance state (.sweep (peer :: rest)) = (state, .sweepRemove peer rest) := by
  simp [advance, MockTransport.transportType, locked]

/-- The last step of the thread in a position was the check of the peer, and the
transport had no connection for the peer then. -/
def CheckedUnconnected (moves : List (Move Call)) (position : Nat) (peer : PeerId)
    (rest : List PeerId) : Prop :=
  Since
    (fun before move =>
      move = .advance position ∧
        (run system idle before).threads[position]? = some (.sweep (peer :: rest)) ∧
        peer ∉ (run system idle before).shared.pool.transport.connections)
    (fun move => move = .advance position) moves

/-- Whenever a sweep is about to remove a peer, the peer was not connected when the
sweep checked it. -/
def RemovesUnconnected (moves : List (Move Call)) : Prop :=
  ∀ position peer rest,
    (run system idle moves).threads[position]? = some (.sweepRemove peer rest) →
      CheckedUnconnected moves position peer rest

/-- The step is not the check of a connected peer while a writer holds the lock. -/
def ChecksUnlocked (state : LockedPool) : Thread → Prop
  | .sweep (peer :: _) => state.writing = false ∨ peer ∉ state.pool.transport.connections
  | _ => True

/-- An allowed step keeps every removal to come a right one. -/
theorem RemovesUnconnected.concat {moves : List (Move Call)} (removes : RemovesUnconnected moves)
    {move : Move Call} (allowed : Meets ChecksUnlocked (run system idle moves) move) :
    RemovesUnconnected (moves ++ [move]) := by
  intro position peer rest about
  rw [run_append, run_cons, run_nil] at about
  rw [CheckedUnconnected, since_concat]
  rcases thread_of_step Call.start advance about with
    ⟨old, another⟩ | ⟨call, -, isStart⟩ | ⟨earlier, rfl, selected, stepped⟩
  · exact Or.inr ⟨removes position peer rest old, another⟩
  · cases call <;> cases isStart
  · obtain ⟨rfl, unanswered⟩ := sweep_of_advance_eq_sweepRemove stepped.symm
    have free := allowed _ selected
    rw [MockTransport.transportType_eq_none_iff] at unanswered
    refine Or.inl ⟨rfl, selected, ?_⟩
    rcases unanswered with locked | unconnected
    · exact free.resolve_left (by simp [locked])
    · exact unconnected

/-- After the check of a connected peer under the lock a wrong removal is to come. -/
theorem RemovesUnconnected.meets {moves : List (Move Call)} {move : Move Call}
    (removes : RemovesUnconnected (moves ++ [move])) :
    Meets ChecksUnlocked (run system idle moves) move := by
  cases move with
  | call call => trivial
  | advance position =>
      intro thread selected
      rw [Option.mem_def] at selected
      cases thread with
      | sweep peers =>
          cases peers with
          | nil => trivial
          | cons peer rest =>
              by_contra wrong
              simp only [ChecksUnlocked, not_or, Bool.not_eq_false, not_not] at wrong
              obtain ⟨locked, connected⟩ := wrong
              have inside := (List.getElem?_eq_some_iff.mp selected).1
              have about : (run system idle (moves ++ [.advance position])).threads[position]? =
                  some (.sweepRemove peer rest) := by
                simp only [run_append, run_cons, run_nil, system, step, selected]
                rw [List.getElem?_set_self inside, advance_sweep_locked locked]
              have checked := removes position peer rest about
              rw [CheckedUnconnected, since_concat] at checked
              rcases checked with ⟨-, -, unconnected⟩ | ⟨-, another⟩
              · exact unconnected connected
              · exact another rfl
      | outside client => trivial
      | holding client => trivial
      | releasing client => trivial
      | sweepRemove peer rest => trivial

/-- However sweeps interleave with connects and disconnects on the pool and on the
transport: along a run, every removal a sweep is about to make is of a peer that was
not connected when checked, if and only if no connected peer is checked while a writer
holds the lock. Nothing else a sweep does takes a peer out of the cache. The equivalence is
about removals to come: one that the run does not get to, or that finds the peer out of the
cache already, counts as well. -/
theorem sweep_removes_unconnected_iff (moves : List (Move Call)) :
    ((∀ before after, moves = before ++ after → RemovesUnconnected before) ↔
      Allows system (Meets ChecksUnlocked) idle moves) ∧
    ∀ before after (position : Nat) thread, moves = before ++ after →
      (run system idle before).threads[position]? = some thread → thread.Sweeps →
      ∀ peer ∈ (run system idle before).shared.pool.connections,
        peer ∉ (advance (run system idle before).shared thread).1.pool.connections →
        ∃ rest, thread = .sweepRemove peer rest := by
  refine ⟨?_, fun before after position thread _ _ sweeps peer cached gone =>
    sweepRemove_of_removes sweeps cached gone⟩
  refine forall_history_iff_allows ?_ ?_ moves
  · intro position peer rest about
    simp [idle] at about
  · intro earlier move removes
    exact ⟨fun after => after.meets, fun allowed => removes.concat allowed⟩

/-- One peer is cached and connected; a connect of another peer takes the lock while a
sweep checks the first one. -/
def sweepDuringConnect : List (Move Call) :=
  [.call (.pool (.getOrConnect ⟨"p"⟩ "p:1")), .advance 0, .advance 0, .advance 0, .advance 0,
    .advance 0, .call (.connect ⟨"q"⟩ "q:1"), .advance 1, .call (.sweep [⟨"p"⟩]), .advance 2]

/-- The peer is connected from the check to the removal, and the sweep takes it out of
the cache. -/
theorem connected_peer_removed :
    let checked := run system idle sweepDuringConnect
    let removed := system checked (.advance 2)
    ⟨"p"⟩ ∈ (run system idle (sweepDuringConnect.take 9)).shared.pool.transport.connections ∧
      (run system idle (sweepDuringConnect.take 9)).shared.pool.connections.keys = [⟨"p"⟩] ∧
      checked.threads[2]? = some (.sweepRemove ⟨"p"⟩ []) ∧
      ⟨"p"⟩ ∈ checked.shared.pool.connections ∧
      ⟨"p"⟩ ∈ removed.shared.pool.transport.connections ∧
      ⟨"p"⟩ ∉ removed.shared.pool.connections := by
  decide +kernel

end HealthCheck

end CmxRdma.Transport
