import CmxRdma.BlockStore.IndexConcurrency
import CmxRdma.Lib.Balance

/-!
Contract: concurrent calls on one `BlockIndex` all come to their end.

Owns: the price of a call, the potential from which every step of a call is paid, the
bound on the steps all calls of a run take together, and the return of every call once
each has had enough turns.

Does not own: the atomic steps, which are those of `IndexConcurrency`, and the
scheduler, which is any one that gives every call its turn.
-/

namespace CmxRdma.BlockStore

open CmxRdma.Lib
open CmxRdma.Lib.Balance
open CmxRdma.Lib.Calls
open CmxRdma.Lib.Transition

namespace BlockIndex

/-! ## Prices -/

/-- What a call still has to pay for. The eviction loop of `insert` may go round any
number of times; a round is paid by the key it takes from the policy, and the key by
the call that put it there. -/
def Thread.price : Thread → Nat
  | .insertContainsKey _ _ => 8
  | .insertLen _ _ _ => 7
  | .insertEvictLru _ _ _ => 6
  | .insertMapRemove _ _ _ _ => 8
  | .insertMapInsert _ _ _ => 5
  | .insertTouch _ _ => 4
  | .lookupGet _ => 4
  | .removeMapRemove _ => 2
  | .removeLruRemove _ _ => 1
  | .containsKey _ => 1
  | .returned _ => 0

/-- The call has not returned. -/
def Thread.running : Thread → Bool
  | .returned _ => false
  | _ => true

theorem Thread.price_pos_of_running {thread : Thread} (running : thread.running = true) :
    0 < thread.price := by
  cases thread with
  | returned result => cases running
  | _ => simp [Thread.price]

theorem length_keys_touch_le (policy : LruPolicy) (key : PrefixHash) :
    (policy.touch key).keys.length ≤ policy.keys.length + 1 := by
  rw [policy.keys_touch, List.length_cons]
  exact Nat.succ_le_succ policy.keys.length_erase_le

/-- A victim found is a key less in the policy. -/
theorem length_keys_evictLru {policy lru : LruPolicy} {victim : PrefixHash}
    (evicting : policy.evictLru = (some victim, lru)) :
    lru.keys.length + 1 = policy.keys.length := by
  have last := policy.evictLru_fst
  have left := policy.keys_evictLru
  rw [evicting] at last left
  have nonempty : policy.keys ≠ [] := by
    intro empty
    simp [empty] at last
  have positive := List.length_pos_iff.mpr nonempty
  rw [left, List.length_dropLast]
  omega

/-- An eviction that finds nothing leaves the policy as it was. -/
theorem length_keys_evictLru_none {policy lru : LruPolicy}
    (evicting : policy.evictLru = (none, lru)) : lru.keys.length = policy.keys.length := by
  have last := policy.evictLru_fst
  have left := policy.keys_evictLru
  rw [evicting] at last left
  have empty := List.getLast?_eq_none_iff.mp last.symm
  rw [left, empty]
  rfl

/-- The potential of one call: three for every key of the policy, and what the call still
has to pay. Each step of a call that has not returned uses up one. -/
theorem advance_pays (index : BlockIndex) (thread : Thread) :
    3 * (index.advance thread).1.lru.keys.length + (index.advance thread).2.price +
        thread.running.toNat ≤
      3 * index.lru.keys.length + thread.price := by
  cases thread with
  | insertContainsKey key entry =>
      simp only [advance]
      split <;> simp [Thread.price, Thread.running]
  | insertLen key entry evicted =>
      simp only [advance]
      split <;> simp [Thread.price, Thread.running]
  | insertEvictLru key entry evicted =>
      simp only [advance]
      rcases evicting : index.lru.evictLru with ⟨_ | victim, lru⟩
      · have same := length_keys_evictLru_none evicting
        simp only [Thread.price, Thread.running, Bool.toNat_true]
        omega
      · have fewer := length_keys_evictLru evicting
        simp only [Thread.price, Thread.running, Bool.toNat_true]
        omega
  | insertMapRemove key entry evicted victim => exact Nat.le_refl _
  | insertMapInsert key entry evicted => exact Nat.le_refl _
  | insertTouch key evicted =>
      have more := length_keys_touch_le index.lru key
      simp only [advance, Thread.price, Thread.running, Bool.toNat_true]
      omega
  | lookupGet key =>
      simp only [advance, lookup]
      cases index.map.lookup key with
      | none =>
          simp only [Thread.price, Thread.running, Bool.toNat_true]
          omega
      | some entry =>
          have more := length_keys_touch_le index.lru key
          simp only [Thread.price, Thread.running, Bool.toNat_true]
          omega
  | removeMapRemove key =>
      simp only [advance]
      cases index.map.lookup key <;> simp [Thread.price, Thread.running]
  | removeLruRemove key entry =>
      have fewer : (index.lru.remove key).keys.length ≤ index.lru.keys.length := by
        rw [index.lru.keys_remove]
        exact index.lru.keys.length_erase_le
      simp only [advance, Thread.price, Thread.running, Bool.toNat_true]
      omega
  | containsKey key => exact Nat.le_refl _
  | returned result => exact Nat.le_refl _

/-- What an action brings into the system: the price of a call that arrives. -/
def Action.price : Action → Nat
  | .call arrived => arrived.start.price
  | .advance _ => 0

namespace System

/-- One if the action is a step of a call that has not returned. -/
def turn (system : System) : Action → Nat
  | .call _ => 0
  | .advance position => (system.threads[position]?.any Thread.running).toNat

def potential (system : System) : Nat :=
  3 * system.shared.lru.keys.length + (system.threads.map Thread.price).sum

theorem step_pays (system : System) (action : Action) :
    (system.step action).potential + system.turn action ≤ system.potential + action.price := by
  cases action with
  | call call => simp [Lib.Calls.step, potential, turn, Action.price, Nat.add_assoc]
  | advance position =>
      cases selected : system.threads[position]? with
      | none => simp [step_advance_of_none, potential, turn, Action.price, selected]
      | some thread =>
          obtain ⟨others, front, indexEq, back⟩ := threads_advance Call.start advance selected
          have pays := system.shared.advance_pays thread
          have before := (front.map Thread.price).sum_nat
          have after := (back.map Thread.price).sum_nat
          simp only [List.map_cons, List.sum_cons] at before after
          simp only [potential, turn, Action.price, selected, Option.any_some, step, indexEq]
          omega

/-- The turns of a run and what its calls still have to pay come to no more than the
prices of the calls that arrived. -/
theorem turns_add_potential_le (capacity : Nat) (actions : List Action) :
    (run step (System.new capacity) actions).potential +
        tally step turn (System.new capacity) actions ≤
      (actions.map Action.price).sum := by
  have bound := @potential_run _ _ step (fun _ action => action.price) turn potential step_pays
    (System.new capacity) actions
  have nothing : (System.new capacity).potential = 0 := rfl
  rwa [tally_of_events, nothing, Nat.zero_add] at bound

/-! ## Turns for everybody -/

theorem quiescent_iff (system : System) :
    system.quiescent = true ↔ ∀ thread ∈ system.threads, thread.running = false := by
  rw [quiescent, List.all_eq_true]
  refine forall₂_congr fun thread _ => ?_
  cases thread <;> simp [Thread.running]

theorem quiescent_of_potential_eq_zero {system : System} (nothing : system.potential = 0) :
    system.quiescent = true := by
  rw [quiescent_iff]
  intro thread member
  by_contra running
  have positive := Thread.price_pos_of_running (Bool.of_not_eq_false running)
  rw [potential, Nat.add_eq_zero_iff, List.sum_eq_zero_iff_forall_eq_nat] at nothing
  have free := nothing.2 thread.price (List.mem_map_of_mem member)
  omega

/-- A returned call stays returned. -/
theorem quiescent_step_advance {system : System} (quiescent : system.quiescent = true)
    (position : Nat) : (system.step (.advance position)).quiescent = true := by
  cases selected : system.threads[position]? with
  | none => rwa [step, step_advance_of_none _ _ selected]
  | some thread =>
      obtain ⟨others, before, -, after⟩ := threads_advance Call.start advance selected
      rw [quiescent_iff] at quiescent ⊢
      have returned := quiescent thread (List.mem_of_getElem? selected)
      intro other member
      rcases List.mem_cons.mp (after.mem_iff.mpr member) with rfl | elsewhere
      · cases thread with
        | returned result => rfl
        | _ => cases returned
      · exact quiescent other (before.mem_iff.mpr (List.mem_cons_of_mem _ elsewhere))

theorem length_threads_step_advance (system : System) (position : Nat) :
    (system.step (.advance position)).threads.length = system.threads.length := by
  cases selected : system.threads[position]? with
  | none => rw [step, step_advance_of_none _ _ selected]
  | some thread =>
      obtain ⟨others, before, -, after⟩ := threads_advance Call.start advance selected
      exact after.length_eq.symm.trans before.length_eq.symm

theorem quiescent_round {system : System} (quiescent : system.quiescent = true)
    (round : List Nat) : (run step system (round.map Move.advance)).quiescent = true := by
  apply @run_invariant_of_mem _ _ step (fun state => state.quiescent = true) _ _ _ quiescent
  intro state action member returned
  obtain ⟨position, -, rfl⟩ := List.mem_map.mp member
  exact quiescent_step_advance returned position

theorem length_threads_round (system : System) (round : List Nat) :
    (run step system (round.map Move.advance)).threads.length = system.threads.length := by
  apply @run_invariant_of_mem _ _ step
    (fun state => state.threads.length = system.threads.length) _ _ _ rfl
  intro state action member same
  obtain ⟨position, -, rfl⟩ := List.mem_map.mp member
  exact (state.length_threads_step_advance position).trans same

/-- A call that has not returned gets its turn in a round that has its position. -/
theorem turn_of_mem_round {system : System} {position : Nat} {thread : Thread}
    (selected : system.threads[position]? = some thread) (running : thread.running = true)
    {round : List Nat} (member : position ∈ round) :
    0 < tally step turn system (round.map Move.advance) := by
  induction round generalizing system with
  | nil => cases member
  | cons first rest inductionHypothesis =>
      rw [List.map_cons, tally]
      by_cases same : first = position
      · subst same
        simp [turn, selected, running]
      · have inRest := (List.mem_cons.mp member).resolve_left (Ne.symm same)
        have still : (system.step (.advance first)).threads[position]? = some thread := by
          rw [step, thread_step _ _ selected, Move.advances, beq_eq_false_iff_ne.mpr same]
          rfl
        exact Nat.add_pos_right _ (inductionHypothesis still inRest)

/-- A round that has every position lowers the potential, unless all calls have
returned. -/
theorem potential_round_lt {system : System} {round : List Nat}
    (covers : ∀ position < system.threads.length, position ∈ round)
    (unfinished : ¬ system.quiescent = true) :
    (run step system (round.map Move.advance)).potential < system.potential := by
  rw [quiescent_iff] at unfinished
  push Not at unfinished
  obtain ⟨thread, member, notReturned⟩ := unfinished
  have running := Bool.of_not_eq_false notReturned
  obtain ⟨position, selected⟩ := List.mem_iff_getElem?.mp member
  have inside := (List.getElem?_eq_some_iff.mp selected).1
  have served := turn_of_mem_round selected running (covers position inside)
  have bound := @potential_run _ _ step (fun _ action => action.price) turn potential step_pays
    system (round.map Move.advance)
  have free : ((round.map Move.advance).map Action.price).sum = 0 := by
    simp [Action.price, Function.comp_def]
  rw [tally_of_events, free] at bound
  omega

end System

end BlockIndex

/-- However calls interleave, all of them together take at most eight steps for each
`insert`, four for each `lookup`, two for each `remove` and one for each `contains`; and
once calls stop arriving, that many rounds in which every call gets a turn, less the
turns taken before, end with every call returned. -/
theorem concurrent_calls_return (capacity : Nat) (history : List BlockIndex.Action)
    (rounds : List (List Nat))
    (covers : ∀ round ∈ rounds, ∀ position < (run BlockIndex.System.step
      (BlockIndex.System.new capacity) history).threads.length, position ∈ round)
    (enough : (history.map BlockIndex.Action.price).sum ≤
      tally BlockIndex.System.step BlockIndex.System.turn (BlockIndex.System.new capacity) history +
        rounds.length) :
    let actions := history ++ (rounds.map (List.map Move.advance)).flatten
    tally BlockIndex.System.step BlockIndex.System.turn (BlockIndex.System.new capacity) actions ≤
        (history.map BlockIndex.Action.price).sum ∧
      (run BlockIndex.System.step (BlockIndex.System.new capacity) actions).quiescent = true := by
  intro actions
  have spent := BlockIndex.System.turns_add_potential_le capacity history
  have bounded := BlockIndex.System.turns_add_potential_le capacity actions
  have sameSum : (actions.map BlockIndex.Action.price).sum =
      (history.map BlockIndex.Action.price).sum := by
    simp [actions, BlockIndex.Action.price, List.map_flatten, Function.comp_def]
  refine ⟨by omega, ?_⟩
  rw [run_append]
  let reached := run BlockIndex.System.step (BlockIndex.System.new capacity) history
  apply @done_of_rounds _ _ BlockIndex.System.step
    (fun system => system.threads.length = reached.threads.length)
    (fun system => system.quiescent = true) BlockIndex.System.potential
  · intro system round member same
    obtain ⟨positions, -, rfl⟩ := List.mem_map.mp member
    exact (system.length_threads_round positions).trans same
  · intro system round member returned
    obtain ⟨positions, -, rfl⟩ := List.mem_map.mp member
    exact BlockIndex.System.quiescent_round returned positions
  · intro system round member same
    obtain ⟨positions, inRounds, rfl⟩ := List.mem_map.mp member
    apply BlockIndex.System.potential_round_lt
    rw [same]
    exact covers positions inRounds
  · intro system nothing
    exact BlockIndex.System.quiescent_of_potential_eq_zero nothing
  · refine ⟨rfl, Or.inl ?_⟩
    rw [List.length_map]
    omega

/-- An insertion that has to evict, a lookup and a removal of its victim, in flight
together on an index of one entry, after nine turns. -/
theorem concurrent_calls_return_after_eviction :
    let history : List BlockIndex.Action :=
      [.call (.insert (.ofByte 1) [] 0), .advance 0, .advance 0, .advance 0, .advance 0,
        .call (.insert (.ofByte 2) [] 0), .call (.lookup (.ofByte 1)),
        .call (.remove (.ofByte 1)), .advance 1, .advance 1, .advance 2, .advance 1, .advance 3]
    let rounds := List.replicate 13 [3, 2, 1, 0]
    let actions := history ++ (rounds.map (List.map Move.advance)).flatten
    tally BlockIndex.System.step BlockIndex.System.turn (BlockIndex.System.new 1) actions ≤ 22 ∧
      (run BlockIndex.System.step (BlockIndex.System.new 1) actions).quiescent = true :=
  concurrent_calls_return 1 _ _ (by decide) (by decide)

end CmxRdma.BlockStore
