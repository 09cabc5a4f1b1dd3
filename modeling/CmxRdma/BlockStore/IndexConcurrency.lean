import CmxRdma.BlockStore.IndexRefinement
import CmxRdma.Lib.Calls
import CmxRdma.Lib.OwedUpdates

/-!
Contract: concurrent calls on one `BlockIndex`, interleaved at the granularity
of its locks.

Owns: the atomic steps of `insert`, `lookup`, `remove` and `contains`, the
system of any number of calls in flight, the agreement of a call that runs
alone with the whole-call model, the step condition under which map and policy
stay in step, and the runs that break them apart without it.

Does not own: the locks themselves. A `lookup` is one step because the shard
guard keeps the entry in the map until the policy was touched.
-/

namespace CmxRdma.BlockStore

open CmxRdma.Lib
open CmxRdma.Lib.Calls
open CmxRdma.Lib.OwedUpdates
open CmxRdma.Lib.Transition

namespace BlockIndex

/-! ## Calls in flight -/

/-- A call in flight, named after the step it takes next. -/
inductive Thread where
  | insertContainsKey (key : PrefixHash) (entry : IndexEntry)
  | insertLen (key : PrefixHash) (entry : IndexEntry) (evicted : List PrefixHash)
  | insertEvictLru (key : PrefixHash) (entry : IndexEntry) (evicted : List PrefixHash)
  | insertMapRemove (key : PrefixHash) (entry : IndexEntry) (evicted : List PrefixHash)
      (victim : PrefixHash)
  | insertMapInsert (key : PrefixHash) (entry : IndexEntry) (evicted : List PrefixHash)
  | insertTouch (key : PrefixHash) (evicted : List PrefixHash)
  | lookupGet (key : PrefixHash)
  | removeMapRemove (key : PrefixHash)
  | removeLruRemove (key : PrefixHash) (entry : IndexEntry)
  | containsKey (key : PrefixHash)
  | returned (result : Result)
deriving DecidableEq

def Call.start : Call → Thread
  | .lookup key => .lookupGet key
  | .insert key blocks createdAt => .insertContainsKey key ⟨blocks, createdAt⟩
  | .remove key => .removeMapRemove key
  | .contains key => .containsKey key

/-- The next atomic step of a call. -/
def advance (index : BlockIndex) : Thread → BlockIndex × Thread
  | .insertContainsKey key entry =>
      (index, if index.contains key then .insertMapInsert key entry [] else .insertLen key entry [])
  | .insertLen key entry evicted =>
      (index, if index.capacity ≤ index.len then .insertEvictLru key entry evicted
        else .insertMapInsert key entry evicted)
  | .insertEvictLru key entry evicted =>
      match index.lru.evictLru with
      | (some victim, lru) => ({ index with lru := lru }, .insertMapRemove key entry evicted victim)
      | (none, lru) => ({ index with lru := lru }, .insertMapInsert key entry evicted)
  | .insertMapRemove key entry evicted victim =>
      ({ index with map := index.map.erase victim }, .insertLen key entry (evicted ++ [victim]))
  | .insertMapInsert key entry evicted =>
      ({ index with map := index.map.insert key entry }, .insertTouch key evicted)
  | .insertTouch key evicted =>
      ({ index with lru := index.lru.touch key }, .returned (.evicted evicted))
  | .lookupGet key => ((index.lookup key).1, .returned (.entry (index.lookup key).2))
  | .removeMapRemove key =>
      match index.map.lookup key with
      | none => (index, .returned (.entry none))
      | some entry => ({ index with map := index.map.erase key }, .removeLruRemove key entry)
  | .removeLruRemove key entry =>
      ({ index with lru := index.lru.remove key }, .returned (.entry (some entry)))
  | .containsKey key => (index, .returned (.flag (index.contains key)))
  | .returned result => (index, .returned result)

/-- No step of a call changes the capacity. -/
theorem advance_capacity (index : BlockIndex) (thread : Thread) :
    (index.advance thread).1.capacity = index.capacity := by
  cases thread with
  | insertEvictLru key entry evicted =>
      simp only [advance]
      split <;> rfl
  | lookupGet key =>
      simp only [advance, lookup]
      split <;> rfl
  | removeMapRemove key =>
      simp only [advance]
      split <;> rfl
  | _ => rfl

/-! ## A call that runs alone -/

/-- The steps of the eviction loop compute `evictWhileFull`, as long as the
bound exceeds the number of keys the policy can give up. -/
theorem alone_evictWhileFull {bound : Nat} {index : BlockIndex} (key : PrefixHash)
    (entry : IndexEntry) (evicted : List PrefixHash) (enough : index.lru.keys.length < bound) :
    ∃ count, alone advance count index (.insertLen key entry evicted) =
      ((evictWhileFull bound index evicted).1,
        .insertMapInsert key entry (evictWhileFull bound index evicted).2) := by
  induction bound generalizing index evicted with
  | zero => exact absurd enough (Nat.not_lt_zero _)
  | succ bound inductionHypothesis =>
      unfold evictWhileFull
      by_cases full : index.capacity ≤ index.len
      · have victimEq := index.lru.evictLru_fst
        have keysLeft := index.lru.keys_evictLru
        rcases evicting : index.lru.evictLru with ⟨found, lru⟩
        rw [evicting] at victimEq keysLeft
        simp only at victimEq keysLeft
        cases found with
        | none =>
            refine ⟨2, ?_⟩
            simp only [alone_succ, advance, full, ↓reduceIte, evicting]
            rfl
        | some victim =>
            have nonempty : 0 < index.lru.keys.length := by
              rw [List.length_pos_iff]
              intro empty
              simp [empty] at victimEq
            let shrunk : BlockIndex := { index with map := index.map.erase victim, lru := lru }
            have fewer : shrunk.lru.keys.length < bound := by
              rw [keysLeft, List.length_dropLast]
              omega
            obtain ⟨count, reached⟩ := inductionHypothesis (evicted ++ [victim]) fewer
            refine ⟨count + 3, ?_⟩
            simp only [alone_succ, advance, full, ↓reduceIte, evicting]
            exact reached
      · refine ⟨1, ?_⟩
        simp only [alone_succ, advance, full, ↓reduceIte]
        rfl

/-- A call whose steps are not interleaved with others is the whole-call
model of `Index`. -/
theorem alone_eq_step (index : BlockIndex) (call : Call) :
    ∃ count, alone advance count index call.start =
      ((index.step call).1, .returned (index.step call).2) := by
  cases call with
  | lookup key => exact ⟨1, rfl⟩
  | contains key => exact ⟨1, rfl⟩
  | remove key =>
      cases found : index.map.lookup key with
      | none => exact ⟨1, by simp only [alone_succ, advance, step, remove, found, Call.start]; rfl⟩
      | some entry =>
          exact ⟨2, by simp only [alone_succ, advance, step, remove, found, Call.start]; rfl⟩
  | insert key blocks createdAt =>
      by_cases present : index.contains key
      · refine ⟨3, ?_⟩
        simp only [alone_succ, advance, step, insert, makeRoom, present, ↓reduceIte, Call.start]
        rfl
      · have enough : index.lru.keys.length < index.lru.len + 1 := by
          rw [index.lru.len_eq]
          exact Nat.lt_succ_self _
        obtain ⟨count, reached⟩ := alone_evictWhileFull key ⟨blocks, createdAt⟩ [] enough
        have entered : advance index (Call.start (.insert key blocks createdAt)) =
            (index, .insertLen key ⟨blocks, createdAt⟩ []) := by
          simp only [Call.start, advance, present, Bool.false_eq_true, ↓reduceIte]
        -- the loop ends before `map.insert`; two more steps write and touch
        refine ⟨2 + count + 1, ?_⟩
        rw [alone_succ, entered, alone_add, reached]
        simp only [step, insert, makeRoom, present, Bool.false_eq_true, ↓reduceIte]
        rfl

/-! ## The system -/

/-- One index and the calls in flight on it. -/
abbrev System := InFlight BlockIndex Thread

abbrev Action := Move Call

namespace System

def new (capacity : Nat) : System where
  shared := BlockIndex.new capacity
  threads := []

abbrev step : System → Action → System :=
  Lib.Calls.step Call.start advance

/-- Every call has returned. -/
def quiescent (system : System) : Bool :=
  system.threads.all fun thread =>
    match thread with
    | .returned _ => true
    | _ => false

end System

/-! ## What calls in flight owe -/

/-- The key an `insert` wrote to the map and has not touched yet. -/
def Thread.touchOwed : Thread → Option PrefixHash
  | .insertTouch key _ => some key
  | _ => none

/-- The victim an `insert` took from the policy and not yet from the map. -/
def Thread.mapRemoveOwed : Thread → Option PrefixHash
  | .insertMapRemove _ _ _ victim => some victim
  | _ => none

/-- The key a `remove` took from the map and not yet from the policy. -/
def Thread.lruRemoveOwed : Thread → Option PrefixHash
  | .removeLruRemove key _ => some key
  | _ => none

/-- Some call owes a step on `key`. -/
def Owes (owed : Thread → Option PrefixHash) (threads : List Thread) (key : PrefixHash) : Prop :=
  some key ∈ threads.map owed

instance (owed : Thread → Option PrefixHash) (threads : List Thread) (key : PrefixHash) :
    Decidable (Owes owed threads key) :=
  inferInstanceAs (Decidable (some key ∈ threads.map owed))

@[simp] theorem owes_cons (owed : Thread → Option PrefixHash) (thread : Thread)
    (threads : List Thread) (key : PrefixHash) :
    Owes owed (thread :: threads) key ↔ owed thread = some key ∨ Owes owed threads key := by
  simp only [Owes, List.map_cons, List.mem_cons, eq_comm]

theorem owes_perm {owed : Thread → Option PrefixHash} {threads threads' : List Thread}
    (perm : threads.Perm threads') (key : PrefixHash) :
    Owes owed threads key ↔ Owes owed threads' key :=
  (perm.map owed).mem_iff

/-- A step that meets no other call halfway through the same key: a new entry
finds room and no eviction of its key under way, a touch overtakes no removal
and no eviction, a removal and a victim meet no untouched insertion. A lookup or a
removal that finds nothing disturbs nobody. -/
def uncontended (index : BlockIndex) (threads : List Thread) : Thread → Bool
  | .insertMapInsert key _ _ =>
      (index.contains key || decide (index.len < index.capacity)) &&
        !decide (Owes Thread.mapRemoveOwed threads key)
  | .insertTouch key _ => !decide (Owes Thread.lruRemoveOwed threads key)
  | .lookupGet key => !index.contains key || !decide (Owes Thread.mapRemoveOwed threads key)
  | .removeMapRemove key => !index.contains key || !decide (Owes Thread.touchOwed threads key)
  | .insertEvictLru _ _ _ =>
      match index.lru.evictLru.1 with
      | some victim => !decide (Owes Thread.touchOwed threads victim)
      | none => true
  | _ => true

theorem uncontended_perm {index : BlockIndex} {threads threads' : List Thread} {thread : Thread}
    (perm : threads.Perm threads') :
    index.uncontended threads thread = index.uncontended threads' thread := by
  cases thread <;> simp only [uncontended, owes_perm perm]

/-- The condition for the step of an action. -/
def System.Uncontended (system : System) : Action → Prop
  | .call _ => True
  | .advance position =>
      ∀ thread ∈ system.threads[position]?,
        system.shared.uncontended system.threads thread = true

instance (system : System) : (action : Action) → Decidable (system.Uncontended action)
  | .call _ => inferInstanceAs (Decidable True)
  | .advance position =>
      inferInstanceAs (Decidable (∀ thread ∈ system.threads[position]?,
        system.shared.uncontended system.threads thread = true))

/-! ## The invariant -/

/-- The keys on which some call owes a step. -/
def owedKeys (owed : Thread → Option PrefixHash) (threads : List Thread) : Set PrefixHash :=
  { key | Owes owed threads key }

theorem owedKeys_cons_some {owed : Thread → Option PrefixHash} {thread : Thread}
    {key : PrefixHash} (owes : owed thread = some key) (threads : List Thread) :
    owedKeys owed (thread :: threads) = Insert.insert key (owedKeys owed threads) := by
  ext other
  simp only [owedKeys, Set.mem_ofPred_eq, owes_cons, owes, Option.some.injEq, Set.mem_insert_iff,
    eq_comm]

theorem owedKeys_cons_none {owed : Thread → Option PrefixHash} {thread : Thread}
    (owes : owed thread = none) (threads : List Thread) :
    owedKeys owed (thread :: threads) = owedKeys owed threads := by
  ext other
  simp [owedKeys, owes]

/-- Map and policy are in step up to what the calls in flight owe, and the map
is within capacity. -/
structure Consistent (index : BlockIndex) (threads : List Thread) : Prop where
  inStep : InStep { key | key ∈ index.map } { key | key ∈ index.lru.keys }
    (owedKeys Thread.touchOwed threads) (owedKeys Thread.mapRemoveOwed threads)
    (owedKeys Thread.lruRemoveOwed threads)
  bounded : index.map.keys.length ≤ index.capacity

theorem Consistent.perm {index : BlockIndex} {threads threads' : List Thread}
    (consistent : Consistent index threads) (perm : threads.Perm threads') :
    Consistent index threads' := by
  have sameKeys : ∀ owed, owedKeys owed threads' = owedKeys owed threads := by
    intro owed
    ext key
    exact owes_perm perm.symm key
  refine ⟨?_, consistent.bounded⟩
  rw [sameKeys, sameKeys, sameKeys]
  exact consistent.inStep

/-- A call at a step that owes nothing may come, go, or move on to another such
step. -/
theorem consistent_cons_iff {index : BlockIndex} {others : List Thread} {thread : Thread}
    (touch : thread.touchOwed = none) (mapRemove : thread.mapRemoveOwed = none)
    (lruRemove : thread.lruRemoveOwed = none) :
    Consistent index (thread :: others) ↔ Consistent index others := by
  constructor <;> rintro ⟨inStep, bounded⟩ <;> refine ⟨?_, bounded⟩
  · rwa [owedKeys_cons_none touch, owedKeys_cons_none mapRemove,
      owedKeys_cons_none lruRemove] at inStep
  · rwa [owedKeys_cons_none touch, owedKeys_cons_none mapRemove, owedKeys_cons_none lruRemove]

/-! ## Key sets of the updates -/

theorem setOf_mem_insert (map : AList (fun _ : PrefixHash => IndexEntry)) (key : PrefixHash)
    (entry : IndexEntry) :
    { other | other ∈ map.insert key entry } = Insert.insert key { other | other ∈ map } := by
  ext other
  simp [AList.mem_insert]

theorem setOf_mem_erase (map : AList (fun _ : PrefixHash => IndexEntry)) (key : PrefixHash) :
    { other | other ∈ map.erase key } = { other | other ∈ map } \ {key} := by
  ext other
  simp [AList.mem_erase, and_comm]

theorem setOf_mem_keys_touch (policy : LruPolicy) (key : PrefixHash) :
    { other | other ∈ (policy.touch key).keys } =
      Insert.insert key { other | other ∈ policy.keys } := by
  ext other
  simp only [LruPolicy.keys_touch, List.mem_cons, policy.keys_nodup.mem_erase_iff,
    Set.mem_ofPred_eq, Set.mem_insert_iff]
  tauto

theorem setOf_mem_keys_remove (policy : LruPolicy) (key : PrefixHash) :
    { other | other ∈ (policy.remove key).keys } = { other | other ∈ policy.keys } \ {key} := by
  ext other
  simp [LruPolicy.keys_remove, policy.keys_nodup.mem_erase_iff, and_comm]

theorem setOf_mem_keys_evictLru {policy : LruPolicy} {victim : PrefixHash}
    (taken : policy.evictLru.1 = some victim) :
    { other | other ∈ policy.evictLru.2.keys } = { other | other ∈ policy.keys } \ {victim} := by
  rw [LruPolicy.evictLru_fst] at taken
  have split := List.dropLast_append_getLast? victim taken
  have nodup := policy.keys_nodup
  rw [← split, List.nodup_append] at nodup
  ext other
  rw [LruPolicy.keys_evictLru, Set.mem_sdiff, Set.mem_ofPred_eq, Set.mem_ofPred_eq,
    Set.mem_singleton_iff]
  constructor
  · intro member
    refine ⟨List.dropLast_subset _ member, ?_⟩
    exact nodup.2.2 other member victim (List.mem_singleton_self victim)
  · rintro ⟨member, different⟩
    rw [← split, List.mem_append, List.mem_singleton] at member
    exact member.resolve_right different

/-! ## Steps -/

section Steps

variable {index : BlockIndex} {others : List Thread} {key victim : PrefixHash}
  {entry : IndexEntry} {evicted : List PrefixHash}

theorem Consistent.mapInsert (consistent : Consistent index others)
    (room : key ∈ index.map ∨ index.map.keys.length < index.capacity)
    (noEviction : ¬ Owes Thread.mapRemoveOwed others key) :
    Consistent { index with map := index.map.insert key entry }
      (.insertTouch key evicted :: others) := by
  obtain ⟨inStep, bounded⟩ := consistent
  refine ⟨?_, ?_⟩
  · rw [setOf_mem_insert, owedKeys_cons_some rfl, owedKeys_cons_none rfl, owedKeys_cons_none rfl]
    exact inStep.map noEviction
  · by_cases present : key ∈ index.map
    · exact le_of_eq_of_le (length_keys_insert_of_mem present entry) bounded
    · exact le_of_eq_of_le (length_keys_insert_of_notMem present entry)
        (room.resolve_left present)

theorem Consistent.insertTouch
    (consistent : Consistent index (.insertTouch key evicted :: others))
    (noRemoval : ¬ Owes Thread.lruRemoveOwed others key) :
    Consistent { index with lru := index.lru.touch key } others := by
  obtain ⟨inStep, bounded⟩ := consistent
  rw [owedKeys_cons_some rfl, owedKeys_cons_none rfl, owedKeys_cons_none rfl] at inStep
  refine ⟨?_, bounded⟩
  rw [setOf_mem_keys_touch]
  exact inStep.touch noRemoval

theorem Consistent.lookupHit (consistent : Consistent index others) (present : key ∈ index.map)
    (noEviction : ¬ Owes Thread.mapRemoveOwed others key) :
    Consistent { index with lru := index.lru.touch key } others := by
  refine ⟨?_, consistent.bounded⟩
  rw [setOf_mem_keys_touch]
  exact consistent.inStep.hit present noEviction

theorem Consistent.evictLru (consistent : Consistent index others)
    (taken : index.lru.evictLru.1 = some victim)
    (noInsertion : ¬ Owes Thread.touchOwed others victim) :
    Consistent { index with lru := index.lru.evictLru.2 }
      (.insertMapRemove key entry evicted victim :: others) := by
  refine ⟨?_, consistent.bounded⟩
  rw [setOf_mem_keys_evictLru taken, owedKeys_cons_none rfl, owedKeys_cons_some rfl,
    owedKeys_cons_none rfl]
  exact consistent.inStep.evict noInsertion

theorem Consistent.mapRemove
    (consistent : Consistent index (.insertMapRemove key entry evicted victim :: others)) :
    Consistent { index with map := index.map.erase victim } others := by
  obtain ⟨inStep, bounded⟩ := consistent
  rw [owedKeys_cons_none rfl, owedKeys_cons_some rfl, owedKeys_cons_none rfl] at inStep
  refine ⟨?_, le_trans (length_keys_erase_le index.map victim) bounded⟩
  rw [setOf_mem_erase]
  exact inStep.unmapVictim

theorem Consistent.removeMapRemove (consistent : Consistent index others)
    (noInsertion : ¬ Owes Thread.touchOwed others key) :
    Consistent { index with map := index.map.erase key }
      (.removeLruRemove key entry :: others) := by
  refine ⟨?_, le_trans (length_keys_erase_le index.map key) consistent.bounded⟩
  rw [setOf_mem_erase, owedKeys_cons_none rfl, owedKeys_cons_none rfl, owedKeys_cons_some rfl]
  exact consistent.inStep.unmap noInsertion

theorem Consistent.lruRemove
    (consistent : Consistent index (.removeLruRemove key entry :: others)) :
    Consistent { index with lru := index.lru.remove key } others := by
  obtain ⟨inStep, bounded⟩ := consistent
  rw [owedKeys_cons_none rfl, owedKeys_cons_none rfl, owedKeys_cons_some rfl] at inStep
  refine ⟨?_, bounded⟩
  rw [setOf_mem_keys_remove]
  exact inStep.untrack

/-- Taking the victim keeps the invariant; without one nothing changes. -/
theorem Consistent.advanceEvictLru (consistent : Consistent index others)
    (noInsertion : ∀ victim, index.lru.evictLru.1 = some victim →
      ¬ Owes Thread.touchOwed others victim) :
    Consistent (index.advance (.insertEvictLru key entry evicted)).1
      ((index.advance (.insertEvictLru key entry evicted)).2 :: others) := by
  have keysLeft := index.lru.keys_evictLru
  have isLast := index.lru.evictLru_fst
  simp only [advance]
  rcases evicting : index.lru.evictLru with ⟨_ | victim, lru⟩
  · rw [evicting] at keysLeft isLast
    have noKeys := List.getLast?_eq_none_iff.mp isLast.symm
    refine (consistent_cons_iff rfl rfl rfl).mpr ⟨?_, consistent.bounded⟩
    simp only [keysLeft, noKeys, List.dropLast_nil]
    rw [← noKeys]
    exact consistent.inStep
  · have taken : index.lru.evictLru.1 = some victim := by rw [evicting]
    have evictedOne : Consistent { index with lru := index.lru.evictLru.2 }
        (.insertMapRemove key entry evicted victim :: others) :=
      consistent.evictLru taken (noInsertion victim taken)
    rwa [evicting] at evictedOne

end Steps

/-- What the condition of a step says about the other calls. -/
theorem not_owes_of_free {owed : Thread → Option PrefixHash} {thread : Thread}
    {others : List Thread} {key : PrefixHash}
    (free : (!decide (Owes owed (thread :: others) key)) = true) : ¬ Owes owed others key := by
  simp only [Bool.not_eq_eq_eq_not, Bool.not_true, decide_eq_false_iff_not, owes_cons,
    not_or] at free
  exact free.2

theorem free_of_present {index : BlockIndex} {key : PrefixHash} {free : Bool}
    (unlessAbsent : (!index.contains key || free) = true) (present : key ∈ index.map) :
    free = true := by
  have isPresent : index.contains key = true := decide_eq_true present
  simpa [isPresent] using unlessAbsent

/-- An uncontended step of one call keeps the invariant, whatever the others
are doing. -/
theorem advance_consistent {index : BlockIndex} {thread : Thread} {others : List Thread}
    (consistent : Consistent index (thread :: others))
    (free : index.uncontended (thread :: others) thread = true) :
    Consistent (index.advance thread).1 ((index.advance thread).2 :: others) := by
  cases thread with
  | insertContainsKey key entry =>
      rw [consistent_cons_iff rfl rfl rfl] at consistent
      simp only [advance]
      split <;> exact (consistent_cons_iff rfl rfl rfl).mpr consistent
  | insertLen key entry evicted =>
      rw [consistent_cons_iff rfl rfl rfl] at consistent
      simp only [advance]
      split <;> exact (consistent_cons_iff rfl rfl rfl).mpr consistent
  | insertEvictLru key entry evicted =>
      rw [consistent_cons_iff rfl rfl rfl] at consistent
      refine consistent.advanceEvictLru fun victim taken => ?_
      simp only [uncontended, taken] at free
      exact not_owes_of_free free
  | insertMapRemove key entry evicted victim =>
      exact (consistent_cons_iff rfl rfl rfl).mpr consistent.mapRemove
  | insertMapInsert key entry evicted =>
      rw [consistent_cons_iff rfl rfl rfl] at consistent
      obtain ⟨room, noEviction⟩ := Bool.and_eq_true_iff.mp free
      simp only [contains, len_eq_length_keys, Bool.or_eq_true, decide_eq_true_eq] at room
      exact consistent.mapInsert room (not_owes_of_free noEviction)
  | insertTouch key evicted =>
      exact (consistent_cons_iff rfl rfl rfl).mpr (consistent.insertTouch (not_owes_of_free free))
  | lookupGet key =>
      rw [consistent_cons_iff rfl rfl rfl] at consistent
      apply (consistent_cons_iff rfl rfl rfl).mpr
      simp only [advance, lookup]
      cases found : index.map.lookup key with
      | none => exact consistent
      | some entry =>
          have present : key ∈ index.map := by
            rw [← AList.lookup_isSome, found]
            rfl
          exact consistent.lookupHit present (not_owes_of_free (free_of_present free present))
  | removeMapRemove key =>
      rw [consistent_cons_iff rfl rfl rfl] at consistent
      simp only [advance]
      cases found : index.map.lookup key with
      | none => exact (consistent_cons_iff rfl rfl rfl).mpr consistent
      | some entry =>
          have present : key ∈ index.map := by
            rw [← AList.lookup_isSome, found]
            rfl
          exact consistent.removeMapRemove (not_owes_of_free (free_of_present free present))
  | removeLruRemove key entry =>
      exact (consistent_cons_iff rfl rfl rfl).mpr consistent.lruRemove
  | containsKey key =>
      rw [consistent_cons_iff rfl rfl rfl] at consistent
      exact (consistent_cons_iff rfl rfl rfl).mpr consistent
  | returned result => exact consistent

/-! ## Runs -/

namespace System

def Invariant (system : System) : Prop :=
  Consistent system.shared system.threads

theorem new_invariant (capacity : Nat) : (System.new capacity).Invariant := by
  refine ⟨?_, Nat.zero_le _⟩
  constructor <;> intro key <;> simp [System.new, BlockIndex.new, owedKeys, Owes]

theorem step_invariant (system : System) (action : Action)
    (free : system.Uncontended action) (consistent : system.Invariant) :
    (system.step action).Invariant := by
  cases action with
  | call call =>
      have arrived : Consistent system.shared (call.start :: system.threads) := by
        cases call <;> exact (consistent_cons_iff rfl rfl rfl).mpr consistent
      exact arrived.perm (threads_call Call.start advance system call)
  | advance position =>
      cases selected : system.threads[position]? with
      | none =>
          rw [step, step_advance_of_none _ _ selected]
          exact consistent
      | some thread =>
          obtain ⟨others, before, indexEq, after⟩ := threads_advance Call.start advance selected
          have uncontended := free _ selected
          rw [uncontended_perm before] at uncontended
          rw [Invariant, step, indexEq]
          exact (advance_consistent (Consistent.perm consistent before) uncontended).perm after

theorem run_step_invariant {capacity : Nat} {actions : List Action}
    (free : Allows step Uncontended (System.new capacity) actions) :
    (run step (System.new capacity) actions).Invariant :=
  run_invariant_of_allows step_invariant (new_invariant capacity) free

theorem run_step_capacity (capacity : Nat) (actions : List Action) :
    (run step (System.new capacity) actions).shared.capacity = capacity :=
  @good_run _ _ _ Call.start advance (fun index => index.capacity = capacity)
    (fun index thread kept => (index.advance_capacity thread).trans kept) (System.new capacity) rfl
    actions

/-- A quiescent system owes nothing. -/
theorem owedKeys_of_quiescent {system : System} (quiescent : system.quiescent = true)
    {owed : Thread → Option PrefixHash} (settled : ∀ result, owed (.returned result) = none) :
    owedKeys owed system.threads = ∅ := by
  rw [Set.eq_empty_iff_forall_notMem]
  intro key owes
  obtain ⟨thread, member, owesKey⟩ := List.mem_map.mp owes
  have returned := List.all_eq_true.mp quiescent thread member
  cases thread <;> simp_all

end System

end BlockIndex

/-- If no step of the run meets another call halfway through the same key, and
new entries find the room they were promised, then map and policy track the same
keys and the map is within capacity once all calls have returned. -/
theorem concurrent_calls_stay_consistent (capacity : Nat) (actions : List BlockIndex.Action)
    (free : Allows BlockIndex.System.step BlockIndex.System.Uncontended
      (BlockIndex.System.new capacity) actions)
    (quiescent : (run BlockIndex.System.step
      (BlockIndex.System.new capacity) actions).quiescent = true) :
    let index := (run BlockIndex.System.step (BlockIndex.System.new capacity) actions).shared
    (∀ key, key ∈ index.map ↔ key ∈ index.lru.keys) ∧ index.len ≤ capacity := by
  intro index
  obtain ⟨inStep, bounded⟩ := BlockIndex.System.run_step_invariant free
  rw [BlockIndex.System.owedKeys_of_quiescent quiescent fun _ => rfl,
    BlockIndex.System.owedKeys_of_quiescent quiescent fun _ => rfl,
    BlockIndex.System.owedKeys_of_quiescent quiescent fun _ => rfl] at inStep
  refine ⟨fun key => ?_, ?_⟩
  · exact Set.ext_iff.mp inStep.eq_of_settled key
  · rw [BlockIndex.len_eq_length_keys, ← BlockIndex.System.run_step_capacity capacity actions]
    exact bounded

/-- Capacity one: an insertion that evicts runs interleaved with the removal and
the lookup of other keys. -/
theorem concurrent_calls_stay_consistent_capacity_one :
    let actions : List BlockIndex.Action :=
      [.call (.insert (.ofByte 1) [] 0), .advance 0, .advance 0, .advance 0, .advance 0,
        .call (.insert (.ofByte 2) [] 0), .call (.remove (.ofByte 3)), .advance 1, .advance 1,
        .advance 1, .advance 2, .advance 1, .call (.lookup (.ofByte 2)), .advance 1, .advance 1,
        .advance 3, .advance 1]
    let system := run BlockIndex.System.step (BlockIndex.System.new 1) actions
    system.quiescent = true ∧ (∀ key, key ∈ system.shared.map ↔ key ∈ system.shared.lru.keys) ∧
      system.shared.len ≤ 1 := by
  intro actions system
  have quiescent : system.quiescent = true := by decide
  exact ⟨quiescent, concurrent_calls_stay_consistent 1 actions (by decide) quiescent⟩

/-- Three races that end badly: a removal that overtakes the touch of an
insertion leaves a ghost key in the policy, one that untracks after a later
insertion leaves an entry no eviction can find, and two insertions that both saw
room overfill the map. -/
theorem concurrent_calls_can_disagree :
    (let ghost := run BlockIndex.System.step (BlockIndex.System.new 1)
        [.call (.insert (.ofByte 1) [] 0), .advance 0, .advance 0, .advance 0,
          .call (.remove (.ofByte 1)), .advance 1, .advance 1, .advance 0];
      ghost.quiescent = true ∧ ghost.shared.map.keys = [] ∧
        ghost.shared.lru.keys = [.ofByte 1]) ∧
    (let unevictable := run BlockIndex.System.step (BlockIndex.System.new 1)
        [.call (.insert (.ofByte 1) [] 0), .advance 0, .advance 0, .advance 0, .advance 0,
          .call (.remove (.ofByte 1)), .advance 1, .call (.insert (.ofByte 1) [] 0), .advance 2,
          .advance 2, .advance 2, .advance 2, .advance 1];
      unevictable.quiescent = true ∧ unevictable.shared.map.keys = [.ofByte 1] ∧
        unevictable.shared.lru.keys = []) ∧
    (let overfull := run BlockIndex.System.step (BlockIndex.System.new 1)
        [.call (.insert (.ofByte 1) [] 0), .call (.insert (.ofByte 2) [] 0), .advance 0,
          .advance 0, .advance 1, .advance 1, .advance 0, .advance 0, .advance 1, .advance 1];
      overfull.quiescent = true ∧ overfull.shared.len = 2 ∧ overfull.shared.capacity = 1) := by
  decide

end CmxRdma.BlockStore
