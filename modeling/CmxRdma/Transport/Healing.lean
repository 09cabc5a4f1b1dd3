import CmxRdma.Transport.HealthCheck

/-!
Contract: what a sweep of the health check of `pool.rs` repairs.

Owns: stale entries of the cache, the steps that make none, and the effect of one sweep
among any other calls: however calls disturbed each other before it, the cache names only
connected peers after it.

Does not own: peers a sweep drops although they are connected; see `HealthCheck`.
-/

namespace CmxRdma.Transport

open CmxRdma.Lib.Calls
open CmxRdma.Lib.Transition

/-! ## Stale entries -/

namespace ConnectionPool

/-- The peer is cached and the transport has no connection to it. -/
def Stale (pool : ConnectionPool MockTransport) (peer : PeerId) : Prop :=
  peer ∈ pool.connections ∧ peer ∉ pool.transport.connections

theorem cacheConnected_of_forall_not_stale {pool : ConnectionPool MockTransport}
    (none : ∀ peer, ¬ pool.Stale peer) : pool.CacheConnected := by
  intro peer cached
  by_contra unconnected
  exact none peer ⟨cached, unconnected⟩

/-- An undisturbed step of the pool makes no entry stale, whatever the others are. -/
theorem stale_of_stale_advance {pool : ConnectionPool MockTransport} {thread : Thread}
    {peer : PeerId} (undisturbed : pool.Undisturbed thread)
    (stale : (pool.advance thread).1.Stale peer) : pool.Stale peer := by
  cases thread with
  | getCheck checked addr =>
      simp only [advance] at stale
      cases found : pool.connections.lookup checked <;> simpa only [found] using stale
  | getConnect connected addr =>
      apply And.intro stale.1
      intro already
      exact stale.2 ((pool.transport.mem_connections_connect connected peer addr).mpr
        (Or.inr already))
  | getInsert inserted addr transportType =>
      apply And.intro _ stale.2
      apply ((AList.mem_insert _).mp stale.1).resolve_left
      intro same
      subst same
      exact stale.2 undisturbed
  | disconnectRemove removed => exact ⟨(AList.mem_erase.mp stale.1).2, stale.2⟩
  | disconnectTransport disconnected =>
      apply And.intro stale.1
      intro connected
      apply stale.2
      apply (pool.transport.mem_connections_disconnect disconnected peer).mpr
      apply And.intro _ connected
      intro same
      subst same
      exact undisturbed stale.1
  | got other result => exact stale
  | disconnected other result => exact stale

end ConnectionPool

namespace HealthCheck

/-- The step of a call meets no other call halfway through the same peer, and nobody
disconnects a cached peer behind the pool's back. -/
def Client.Steady (pool : ConnectionPool MockTransport) : Client → Prop
  | .pool thread => pool.Undisturbed thread
  | .disconnect peer => peer ∉ pool.connections
  | _ => True

/-- The step of a thread disturbs no other call; taking and returning the lock never
does. -/
def Steady (state : LockedPool) : Thread → Prop
  | .outside client => client.writes = false → client.Steady state.pool
  | .holding client => client.Steady state.pool
  | _ => True

theorem stale_of_stale_client {pool : ConnectionPool MockTransport} {client : Client}
    {peer : PeerId} (steady : client.Steady pool)
    (stale : (client.advance pool).1.Stale peer) : pool.Stale peer := by
  cases client with
  | pool thread => exact ConnectionPool.stale_of_stale_advance steady stale
  | connect connected addr =>
      apply And.intro stale.1
      intro already
      exact stale.2 ((pool.transport.mem_connections_connect connected peer addr).mpr
        (Or.inr already))
  | disconnect disconnected =>
      apply And.intro stale.1
      intro connected
      apply stale.2
      apply (pool.transport.mem_connections_disconnect disconnected peer).mpr
      apply And.intro _ connected
      intro same
      subst same
      exact steady stale.1
  | connected result => exact stale
  | disconnected result => exact stale

/-- No steady step makes an entry stale; the steps of a sweep make none either. -/
theorem stale_of_stale_advance {state : LockedPool} {thread : Thread} {peer : PeerId}
    (steady : Steady state thread) (stale : (advance state thread).1.pool.Stale peer) :
    state.pool.Stale peer := by
  cases thread with
  | outside client =>
      cases writes : client.writes with
      | false =>
          rw [advance_outside state writes] at stale
          exact stale_of_stale_client (steady writes) stale
      | true =>
          simp only [advance, writes, if_true] at stale
          split at stale <;> exact stale
  | holding client => exact stale_of_stale_client steady stale
  | releasing client => exact stale
  | sweep peers =>
      cases peers with
      | nil => exact stale
      | cons checked rest =>
          simp only [advance] at stale
          split at stale <;> exact stale
  | sweepRemove removed rest => exact ⟨(AList.mem_erase.mp stale.1).2, stale.2⟩

/-! ## The sweep -/

/-- The peers a sweep has yet to check or to remove. -/
def Thread.unchecked : Thread → List PeerId
  | .sweep peers => peers
  | .sweepRemove peer rest => peer :: rest
  | _ => []

/-- The most steps a sweep still takes: a check and a removal for each peer. -/
def Thread.remaining : Thread → Nat
  | .sweep peers => 2 * peers.length
  | .sweepRemove _ rest => 2 * rest.length + 1
  | _ => 0

theorem Thread.unchecked_eq_nil {thread : Thread} (sweeps : thread.Sweeps)
    (done : thread.remaining = 0) : thread.unchecked = [] := by
  cases thread with
  | sweep peers =>
      have twice : 2 * peers.length = 0 := done
      apply List.length_eq_zero_iff.mp
      show peers.length = 0
      omega
  | sweepRemove peer rest => simp [remaining] at done
  | outside client => rfl
  | holding client => rfl
  | releasing client => rfl

theorem remaining_advance (state : LockedPool) (thread : Thread) (sweeps : thread.Sweeps) :
    (advance state thread).2.Sweeps ∧
      (advance state thread).2.remaining ≤ thread.remaining - 1 := by
  cases thread with
  | sweep peers =>
      cases peers with
      | nil => exact ⟨trivial, Nat.zero_le _⟩
      | cons peer rest =>
          simp only [advance]
          split
          · apply And.intro trivial
            simp only [Thread.remaining, List.length_cons]
            omega
          · apply And.intro trivial
            simp only [Thread.remaining, List.length_cons]
            omega
  | sweepRemove peer rest =>
      apply And.intro trivial
      simp [advance, Thread.remaining]
  | outside client => exact absurd sweeps (by simp [Thread.Sweeps])
  | holding client => exact absurd sweeps (by simp [Thread.Sweeps])
  | releasing client => exact absurd sweeps (by simp [Thread.Sweeps])

/-- A sweep passes a peer by only when it is connected or no longer cached. -/
theorem mem_unchecked_advance {state : LockedPool} {thread : Thread} {peer : PeerId}
    (unchecked : peer ∈ thread.unchecked)
    (stale : (advance state thread).1.pool.Stale peer) :
    peer ∈ (advance state thread).2.unchecked := by
  cases thread with
  | sweep peers =>
      cases peers with
      | nil => exact unchecked
      | cons checked rest =>
          cases answer : state.pool.transport.transportType state.writing checked with
          | none =>
              simp only [advance, answer]
              exact unchecked
          | some transportType =>
              simp only [advance, answer] at stale ⊢
              apply (List.mem_cons.mp unchecked).resolve_left
              intro same
              subst same
              have noAnswer := (state.pool.transport.transportType_eq_none_iff state.writing
                peer).mpr (Or.inr stale.2)
              rw [answer] at noAnswer
              cases noAnswer
  | sweepRemove removed rest =>
      exact (List.mem_cons.mp unchecked).resolve_left (AList.mem_erase.mp stale.1).1
  | outside client => cases unchecked
  | holding client => cases unchecked
  | releasing client => cases unchecked

/-- Every stale entry is one the sweep in the position has yet to reach. -/
def StaleAhead (position : Nat) (system : InFlight LockedPool Thread) : Prop :=
  ∃ thread, system.threads[position]? = some thread ∧
    ∀ peer, system.shared.pool.Stale peer → peer ∈ thread.unchecked

/-- Steady steps keep it so, those of the sweep and those of any other call. -/
theorem StaleAhead.step {position : Nat} {state : InFlight LockedPool Thread}
    {move : Move Call} (steady : Meets Steady state move) (ahead : StaleAhead position state) :
    StaleAhead position (system state move) := by
  obtain ⟨thread, selected, covers⟩ := ahead
  refine ⟨_, thread_step Call.start advance selected move, ?_⟩
  cases move with
  | call call => exact covers
  | advance moved =>
      intro peer stale
      cases other : state.threads[moved]? with
      | none =>
          have notOwn : moved ≠ position := by
            intro same
            rw [same, selected] at other
            cases other
          simp only [system, Lib.Calls.step, other] at stale
          rw [Move.advances, beq_eq_false_iff_ne.mpr notOwn]
          exact covers peer stale
      | some mover =>
          simp only [system, Lib.Calls.step, other] at stale
          have before := covers peer (stale_of_stale_advance (steady mover other) stale)
          by_cases own : moved = position
          · subst own
            obtain rfl : thread = mover := Option.some.inj (selected.symm.trans other)
            rw [Move.advances, beq_self_eq_true, if_pos rfl]
            exact mem_unchecked_advance before stale
          · rw [Move.advances, beq_eq_false_iff_ne.mpr own]
            exact before

/-- Whatever calls did before, however they disturbed each other: once a sweep that was
given every stale entry has had its steps, and no call disturbed another since it began,
every cached peer is connected, is returned by `get_or_connect` at once and is found by
transfers. -/
theorem sweep_heals_cache (earlier later : List (Move Call)) (peers : List PeerId)
    (given : ∀ peer, (run system idle earlier).shared.pool.Stale peer → peer ∈ peers)
    (steady : Allows system (Meets Steady)
      (run system idle (earlier ++ [.call (.sweep peers)])) later)
    (enough : 2 * peers.length ≤
      later.countP (Move.advances (run system idle earlier).threads.length)) :
    let healed := (run system idle (earlier ++ .call (.sweep peers) :: later)).shared.pool
    healed.CacheConnected ∧
      ∀ peer ∈ healed.connections,
        (∀ addr, ∃ transportType, healed.getOrConnect peer addr = (healed, .ok transportType)) ∧
        ∀ remote : RemoteMemoryRegion, remote.peer = peer →
          (∀ localSize,
            healed.transport.read remote localSize ≠ .error (.peerNotFound peer.id)) ∧
          ∀ contents,
            (healed.transport.write contents remote).2 ≠ .error (.peerNotFound peer.id) := by
  intro healed
  let begun := run system idle (earlier ++ [.call (.sweep peers)])
  have isHealed : healed = (run system begun later).shared.pool := by
    simp only [healed, begun, run_append, run_cons, run_nil]
  have selected : begun.threads[(run system idle earlier).threads.length]? =
      some (.sweep peers) := by
    simp [begun, run_append, system, Lib.Calls.step, Call.start]
  have ahead : StaleAhead (run system idle earlier).threads.length begun := by
    refine ⟨.sweep peers, selected, ?_⟩
    simp only [begun, run_append, run_cons, run_nil]
    exact given
  obtain ⟨thread, found, covers⟩ := run_invariant_of_allows
    (fun _ _ steadyStep stillAhead => StaleAhead.step steadyStep stillAhead) ahead steady
  obtain ⟨last, sameFound, sweeps, below⟩ :=
    measure_run Call.start advance remaining_advance selected trivial later
  obtain rfl : thread = last := Option.some.inj (found.symm.trans sameFound)
  have done : thread.remaining = 0 := by
    have whole : (Thread.sweep peers).remaining = 2 * peers.length := rfl
    omega
  have agrees : healed.CacheConnected := by
    apply ConnectionPool.cacheConnected_of_forall_not_stale
    intro peer stale
    rw [isHealed] at stale
    have unchecked := covers peer stale
    rw [Thread.unchecked_eq_nil sweeps done] at unchecked
    cases unchecked
  exact ⟨agrees, fun peer cached => agrees.cached_usable cached⟩

/-- A `disconnect` slips between the connection a `get_or_connect` makes and its
insertion into the cache. -/
def slipUnderLock : List (Move Call) :=
  [.call (.pool (.getOrConnect ⟨"p"⟩ "p:1")), .advance 0, .advance 0, .advance 0, .advance 0,
    .call (.pool (.disconnect ⟨"p"⟩)), .advance 1, .advance 1, .advance 1, .advance 1,
    .advance 0]

/-- The entry it leaves is stale, and one sweep of two steps takes it out. -/
theorem sweep_heals_cache_after_slip :
    (run system idle slipUnderLock).shared.pool.Stale ⟨"p"⟩ ∧
      (run system idle (slipUnderLock ++ .call (.sweep [⟨"p"⟩]) ::
        [.advance 2, .advance 2])).shared.pool.CacheConnected := by
  have onlyKey : (run system idle slipUnderLock).shared.pool.connections.keys = [⟨"p"⟩] := by
    decide +kernel
  let begun := run system idle (slipUnderLock ++ [.call (.sweep [⟨"p"⟩])])
  have checks : begun.threads[2]? = some (.sweep [⟨"p"⟩]) := by decide +kernel
  have removes : (system begun (.advance 2)).threads[2]? = some (.sweepRemove ⟨"p"⟩ []) := by
    decide +kernel
  apply And.intro ⟨by decide +kernel, by decide +kernel⟩
  refine (sweep_heals_cache slipUnderLock [.advance 2, .advance 2] [⟨"p"⟩] ?_ ⟨?_, ?_, trivial⟩
    (by decide +kernel)).1
  · intro peer stale
    rw [← onlyKey]
    exact AList.mem_keys.mp stale.1
  · intro thread member
    obtain rfl := Option.some.inj (checks.symm.trans member)
    trivial
  · intro thread member
    obtain rfl := Option.some.inj (removes.symm.trans member)
    trivial

end HealthCheck

end CmxRdma.Transport
