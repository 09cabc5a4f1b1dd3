import CmxRdma.BlockStore.IndexConcurrency
import CmxRdma.Lib.Balance
import Mathlib.Data.Finset.Card
import Mathlib.Data.Finset.Lattice.Lemmas

/-!
Contract: how far concurrent calls can carry one `BlockIndex` over its capacity.

Owns: the keys the map has or is about to get, the keys no eviction can reach any
more, and the bound on the size of the map over every interleaving, in terms of
the insertions in flight and the removals that stranded an entry.

Does not own: the atomic steps, which are those of `IndexConcurrency`.
-/

namespace CmxRdma.BlockStore

open CmxRdma.Lib
open CmxRdma.Lib.Balance
open CmxRdma.Lib.Calls
open CmxRdma.Lib.Transition

namespace BlockIndex

/-! ## Insertions in flight -/

/-- A call of `insert` that has not returned. -/
def Thread.inserting : Thread → Bool
  | .insertContainsKey _ _ | .insertLen _ _ _ | .insertEvictLru _ _ _
  | .insertMapRemove _ _ _ _ | .insertMapInsert _ _ _ | .insertTouch _ _ => true
  | _ => false

/-- The key an `insert` is going to write without another look at the size. -/
def Thread.mapInsertOwed : Thread → Option PrefixHash
  | .insertMapInsert key _ _ => some key
  | _ => none

/-- The one key of the map that is out of the policy's reach, or on its way into
the map, because of this call. -/
def Thread.stake : Thread → Option PrefixHash
  | .insertMapInsert key _ _ => some key
  | .insertTouch key _ => some key
  | .insertMapRemove _ _ _ victim => some victim
  | _ => none

theorem Thread.stake_of_mapInsertOwed {thread : Thread} {key : PrefixHash}
    (owed : thread.mapInsertOwed = some key) : thread.stake = some key := by
  cases thread <;> simp_all [Thread.mapInsertOwed, Thread.stake]

theorem Thread.stake_of_touchOwed {thread : Thread} {key : PrefixHash}
    (owed : thread.touchOwed = some key) : thread.stake = some key := by
  cases thread <;> simp_all [Thread.touchOwed, Thread.stake]

theorem Thread.stake_of_mapRemoveOwed {thread : Thread} {key : PrefixHash}
    (owed : thread.mapRemoveOwed = some key) : thread.stake = some key := by
  cases thread <;> simp_all [Thread.mapRemoveOwed, Thread.stake]

theorem Thread.inserting_of_stake {thread : Thread} {key : PrefixHash}
    (staked : thread.stake = some key) : thread.inserting = true := by
  cases thread <;> simp_all [Thread.inserting, Thread.stake]

/-- The keys on which some call owes a step, as a finite set. -/
def owedFinset (owed : Thread → Option PrefixHash) (threads : List Thread) : Finset PrefixHash :=
  (threads.filterMap owed).toFinset

theorem mem_owedFinset {owed : Thread → Option PrefixHash} {threads : List Thread}
    {key : PrefixHash} : key ∈ owedFinset owed threads ↔ Owes owed threads key := by
  simp [owedFinset, Owes]

theorem owes_imp {first second : Thread → Option PrefixHash} {threads : List Thread}
    {key : PrefixHash}
    (imp : ∀ thread, first thread = some key → second thread = some key)
    (owes : Owes first threads key) : Owes second threads key := by
  obtain ⟨thread, member, owesKey⟩ := List.mem_map.mp owes
  exact List.mem_map.mpr ⟨thread, member, imp thread owesKey⟩

/-- Each call in flight has at most one key at stake. -/
theorem card_owedFinset_stake_le (threads : List Thread) :
    (owedFinset Thread.stake threads).card ≤ threads.countP Thread.inserting := by
  refine (List.toFinset_card_le _).trans ?_
  rw [List.length_filterMap_eq_countP]
  apply List.countP_mono_left
  intro thread _ staked
  obtain ⟨key, stake⟩ := Option.isSome_iff_exists.mp staked
  exact Thread.inserting_of_stake stake

/-! ## What the policy cannot reach -/

/-- Every key of the map is tracked by the policy, or some insertion in flight
has yet to touch it or to take it out, or it was stranded. -/
def Reachable (index : BlockIndex) (threads : List Thread) (stranded : Finset PrefixHash) : Prop :=
  ∀ key ∈ index.map, key ∈ index.lru.keys ∨ Owes Thread.touchOwed threads key ∨
    Owes Thread.mapRemoveOwed threads key ∨ key ∈ stranded

theorem Reachable.perm {index : BlockIndex} {threads threads' : List Thread}
    {stranded : Finset PrefixHash} (reachable : index.Reachable threads stranded)
    (perm : threads.Perm threads') : index.Reachable threads' stranded := by
  intro key member
  rw [← owes_perm perm, ← owes_perm perm]
  exact reachable key member

/-- A removal about to untrack a key that is in the map again: the entry stays
and no eviction will find it. -/
def strands (index : BlockIndex) : Thread → Bool
  | .removeLruRemove key _ => index.contains key
  | _ => false

/-- What a step of one call needs to keep the keys within reach: a key new to the
map is touched by the same call later, a victim leaves the map after the policy,
and a touch owed is a touch made. -/
theorem Reachable.step {index index' : BlockIndex} {thread thread' : Thread}
    {others : List Thread} {stranded stranded' : Finset PrefixHash}
    (reachable : index.Reachable (thread :: others) stranded)
    (mapped : ∀ key ∈ index'.map, thread'.touchOwed = some key ∨
      key ∈ index.map ∧ thread.mapRemoveOwed ≠ some key)
    (tracked : ∀ key ∈ index.lru.keys, key ∈ index'.map → key ∈ index'.lru.keys ∨
      thread'.mapRemoveOwed = some key ∨ key ∈ stranded')
    (touched : ∀ key, thread.touchOwed = some key → key ∈ index'.lru.keys)
    (kept : stranded ⊆ stranded') : index'.Reachable (thread' :: others) stranded' := by
  intro key member
  rw [owes_cons, owes_cons]
  rcases mapped key member with owed | ⟨present, notVictim⟩
  · exact .inr (.inl (.inl owed))
  have before := reachable key present
  rw [owes_cons, owes_cons] at before
  rcases before with inPolicy | (touch | others) | (victim | others) | gone
  · rcases tracked key inPolicy member with still | owed | gone
    · exact .inl still
    · exact .inr (.inr (.inl (.inl owed)))
    · exact .inr (.inr (.inr gone))
  · exact .inl (touched key touch)
  · exact .inr (.inl (.inr others))
  · exact absurd victim notVictim
  · exact .inr (.inr (.inl (.inr others)))
  · exact .inr (.inr (.inr (kept gone)))

/-- A call at a step that owes nothing, before and after, and that changes
neither map nor policy. -/
theorem Reachable.idle {index : BlockIndex} {thread thread' : Thread} {others : List Thread}
    {stranded : Finset PrefixHash} (reachable : index.Reachable (thread :: others) stranded)
    (noTouch : thread.touchOwed = none) (noVictim : thread.mapRemoveOwed = none) :
    index.Reachable (thread' :: others) stranded := by
  apply reachable.step
  · intro key member
    exact .inr ⟨member, by simp [noVictim]⟩
  · intro key inPolicy _
    exact .inl inPolicy
  · intro key owed
    simp [noTouch] at owed
  · exact Finset.Subset.refl stranded

theorem mem_keys_touch_iff {policy : LruPolicy} {key other : PrefixHash} :
    other ∈ (policy.touch key).keys ↔ other = key ∨ other ∈ policy.keys :=
  Set.ext_iff.mp (setOf_mem_keys_touch policy key) other

/-- A touched policy has all it had. -/
theorem Reachable.touch {index : BlockIndex} {thread : Thread} {others : List Thread}
    {stranded : Finset PrefixHash} {key : PrefixHash} {result : Result}
    (reachable : index.Reachable (thread :: others) stranded)
    (owes : ∀ other, thread.touchOwed = some other → other = key)
    (noVictim : thread.mapRemoveOwed = none) :
    Reachable { index with lru := index.lru.touch key } (.returned result :: others) stranded := by
  apply reachable.step
  · intro other member
    exact .inr ⟨member, by simp [noVictim]⟩
  · intro other inPolicy _
    exact .inl (mem_keys_touch_iff.mpr (.inr inPolicy))
  · intro other owed
    exact mem_keys_touch_iff.mpr (.inl (owes other owed))
  · exact Finset.Subset.refl stranded

/-- The victim leaves the policy and becomes a key this call owes to take out. -/
theorem Reachable.evict {index : BlockIndex} {others : List Thread}
    {stranded : Finset PrefixHash} {key : PrefixHash} {entry : IndexEntry}
    {evicted : List PrefixHash}
    (reachable : index.Reachable (.insertEvictLru key entry evicted :: others) stranded) :
    (index.advance (.insertEvictLru key entry evicted)).1.Reachable
      ((index.advance (.insertEvictLru key entry evicted)).2 :: others) stranded := by
  have isLast := index.lru.evictLru_fst
  simp only [advance]
  rcases evicting : index.lru.evictLru with ⟨_ | victim, lru⟩
  · rw [evicting] at isLast
    have noKeys := List.getLast?_eq_none_iff.mp isLast.symm
    apply reachable.step
    · intro other member
      exact .inr ⟨member, by simp [Thread.mapRemoveOwed]⟩
    · intro other inPolicy
      simp [noKeys] at inPolicy
    · intro other owed
      simp [Thread.touchOwed] at owed
    · exact Finset.Subset.refl stranded
  · have taken : index.lru.evictLru.1 = some victim := by rw [evicting]
    have left := Set.ext_iff.mp (setOf_mem_keys_evictLru taken)
    rw [evicting] at left
    apply reachable.step
    · intro other member
      exact .inr ⟨member, by simp [Thread.mapRemoveOwed]⟩
    · intro other inPolicy _
      by_cases isVictim : other = victim
      · exact .inr (.inl (congrArg some isVictim.symm))
      · exact .inl ((left other).mpr ⟨inPolicy, isVictim⟩)
    · intro other owed
      simp [Thread.touchOwed] at owed
    · exact Finset.Subset.refl stranded

/-- A key that leaves the map needs nobody to reach it. -/
theorem Reachable.erase {index : BlockIndex} {thread thread' : Thread} {others : List Thread}
    {stranded : Finset PrefixHash} {key : PrefixHash}
    (reachable : index.Reachable (thread :: others) stranded)
    (noTouch : thread.touchOwed = none)
    (victim : ∀ other, thread.mapRemoveOwed = some other → other = key) :
    Reachable { index with map := index.map.erase key } (thread' :: others) stranded := by
  apply reachable.step
  · intro other member
    obtain ⟨different, present⟩ := AList.mem_erase.mp member
    exact .inr ⟨present, fun owed => different (victim other owed)⟩
  · intro other inPolicy _
    exact .inl inPolicy
  · intro other owed
    simp [noTouch] at owed
  · exact Finset.Subset.refl stranded

theorem Reachable.mapInsert {index : BlockIndex} {others : List Thread}
    {stranded : Finset PrefixHash} {key : PrefixHash} {entry : IndexEntry}
    {evicted : List PrefixHash}
    (reachable : index.Reachable (.insertMapInsert key entry evicted :: others) stranded) :
    Reachable { index with map := index.map.insert key entry }
      (.insertTouch key evicted :: others) stranded := by
  apply reachable.step
  · intro other member
    rcases (AList.mem_insert _).mp member with rfl | present
    · exact .inl rfl
    · exact .inr ⟨present, by simp [Thread.mapRemoveOwed]⟩
  · intro other inPolicy _
    exact .inl inPolicy
  · intro other owed
    simp [Thread.touchOwed] at owed
  · exact Finset.Subset.refl stranded

/-- Untracking strands the key if the map has it. -/
theorem Reachable.untrack {index : BlockIndex} {others : List Thread}
    {stranded : Finset PrefixHash} {key : PrefixHash} {entry : IndexEntry} {result : Result}
    (reachable : index.Reachable (.removeLruRemove key entry :: others) stranded) :
    Reachable { index with lru := index.lru.remove key } (.returned result :: others)
      (if index.contains key then Insert.insert key stranded else stranded) := by
  have left := Set.ext_iff.mp (setOf_mem_keys_remove index.lru key)
  apply reachable.step
  · intro other member
    exact .inr ⟨member, by simp [Thread.mapRemoveOwed]⟩
  · intro other inPolicy present
    by_cases same : other = key
    · subst same
      have contained : index.contains other = true := by simpa [contains] using present
      exact .inr (.inr (by simp [contained]))
    · exact .inl ((left other).mpr ⟨inPolicy, same⟩)
  · intro other owed
    simp [Thread.touchOwed] at owed
  · split
    · exact Finset.subset_insert key stranded
    · exact Finset.Subset.refl stranded

/-- One step of one call: only a removal that untracks a key of the map strands
an entry. -/
theorem advance_reachable {index : BlockIndex} {thread : Thread} {others : List Thread}
    {stranded : Finset PrefixHash} (reachable : index.Reachable (thread :: others) stranded) :
    ∃ stranded' : Finset PrefixHash,
      stranded'.card ≤ stranded.card + (index.strands thread).toNat ∧
      (index.advance thread).1.Reachable ((index.advance thread).2 :: others) stranded' := by
  cases thread with
  | removeLruRemove key entry =>
      refine ⟨_, ?_, reachable.untrack⟩
      simp only [strands]
      cases index.contains key with
      | false => exact Nat.le_refl _
      | true => exact Finset.card_insert_le key stranded
  | insertContainsKey key entry => exact ⟨stranded, Nat.le_refl _, reachable.idle rfl rfl⟩
  | insertLen key entry evicted => exact ⟨stranded, Nat.le_refl _, reachable.idle rfl rfl⟩
  | insertEvictLru key entry evicted => exact ⟨stranded, Nat.le_refl _, reachable.evict⟩
  | insertMapRemove key entry evicted victim =>
      refine ⟨stranded, Nat.le_refl _, reachable.erase rfl ?_⟩
      intro other owed
      exact (Option.some.inj owed).symm
  | insertMapInsert key entry evicted => exact ⟨stranded, Nat.le_refl _, reachable.mapInsert⟩
  | insertTouch key evicted =>
      refine ⟨stranded, Nat.le_refl _, reachable.touch ?_ rfl⟩
      intro other owed
      exact (Option.some.inj owed).symm
  | lookupGet key =>
      refine ⟨stranded, Nat.le_refl _, ?_⟩
      simp only [advance, lookup]
      cases index.map.lookup key with
      | none => exact reachable.idle rfl rfl
      | some entry =>
          exact reachable.touch (fun other owed => by simp [Thread.touchOwed] at owed) rfl
  | removeMapRemove key =>
      refine ⟨stranded, Nat.le_refl _, ?_⟩
      simp only [advance]
      cases index.map.lookup key with
      | none => exact reachable.idle rfl rfl
      | some entry =>
          exact reachable.erase rfl fun other owed => by simp [Thread.mapRemoveOwed] at owed
  | containsKey key => exact ⟨stranded, Nat.le_refl _, reachable.idle rfl rfl⟩
  | returned result => exact ⟨stranded, Nat.le_refl _, reachable⟩

/-! ## What the map has and will get -/

/-- The keys the map has, and those it will get without another look at its
size. -/
def reserved (index : BlockIndex) (threads : List Thread) : Finset PrefixHash :=
  index.map.keys.toFinset ∪ owedFinset Thread.mapInsertOwed threads

theorem mem_reserved {index : BlockIndex} {threads : List Thread} {key : PrefixHash} :
    key ∈ index.reserved threads ↔ key ∈ index.map ∨ Owes Thread.mapInsertOwed threads key := by
  rw [reserved, Finset.mem_union, mem_owedFinset, List.mem_toFinset, ← AList.mem_keys]

theorem reserved_perm {index : BlockIndex} {threads threads' : List Thread}
    (perm : threads.Perm threads') : index.reserved threads = index.reserved threads' := by
  ext key
  rw [mem_reserved, mem_reserved, owes_perm perm]

theorem len_le_card_reserved (index : BlockIndex) (threads : List Thread) :
    index.len ≤ (index.reserved threads).card := by
  rw [len_eq_length_keys, ← List.toFinset_card_of_nodup index.map.keys_nodup]
  exact Finset.card_le_card Finset.subset_union_left

/-- A step that writes only what its call owed to write, and commits to no write
of a new key. -/
theorem reserved_subset {index index' : BlockIndex} {thread thread' : Thread}
    {others : List Thread}
    (mapped : ∀ key ∈ index'.map, key ∈ index.map ∨ thread.mapInsertOwed = some key)
    (committed : ∀ key, thread'.mapInsertOwed = some key → key ∈ index.map) :
    index'.reserved (thread' :: others) ⊆ index.reserved (thread :: others) := by
  intro key member
  rw [mem_reserved, owes_cons] at member ⊢
  rcases member with present | owed | owed
  · rcases mapped key present with before | owed
    · exact .inl before
    · exact .inr (.inl owed)
  · exact .inl (committed key owed)
  · exact .inr (.inr owed)

/-- A call that commits to its write reserves one key, each other insertion has one
key at stake, and the rest of the map is in `base`. -/
theorem card_reserved_mapInsert_le {index : BlockIndex} {others : List Thread} {key : PrefixHash}
    {entry : IndexEntry} {evicted : List PrefixHash} {base : Finset PrefixHash}
    (covers : ∀ other ∈ index.map, other ∈ base ∨ Owes Thread.stake others other) :
    (index.reserved (.insertMapInsert key entry evicted :: others)).card ≤
      base.card + (others.countP Thread.inserting + 1) := by
  have within : index.reserved (.insertMapInsert key entry evicted :: others) ⊆
      base ∪ Insert.insert key (owedFinset Thread.stake others) := by
    intro other member
    rw [mem_reserved, owes_cons] at member
    rw [Finset.mem_union, Finset.mem_insert, mem_owedFinset]
    rcases member with present | owed | owed
    · exact (covers other present).imp_right .inr
    · exact .inr (.inl (Option.some.inj owed).symm)
    · exact .inr (.inr (owes_imp (fun _ => Thread.stake_of_mapInsertOwed) owed))
  have stakes := card_owedFinset_stake_le others
  have inserted := Finset.card_insert_le key (owedFinset Thread.stake others)
  have union := Finset.card_union_le base (Insert.insert key (owedFinset Thread.stake others))
  have reservedCard := Finset.card_le_card within
  omega

/-- With an empty policy the map has only what other insertions have at stake and
what was stranded. -/
theorem Reachable.covers_of_no_keys {index : BlockIndex} {others : List Thread}
    {stranded : Finset PrefixHash} {key : PrefixHash} {entry : IndexEntry}
    {evicted : List PrefixHash}
    (reachable : index.Reachable (.insertMapInsert key entry evicted :: others) stranded)
    (empty : index.lru.keys = []) :
    ∀ other ∈ index.map, other ∈ stranded ∨ Owes Thread.stake others other := by
  intro other present
  have reach := reachable other present
  rw [empty, owes_cons, owes_cons] at reach
  simp only [List.not_mem_nil, Thread.touchOwed, Thread.mapRemoveOwed, reduceCtorEq,
    false_or] at reach
  rcases reach with owed | owed | gone
  · exact .inr (owes_imp (fun _ => Thread.stake_of_touchOwed) owed)
  · exact .inr (owes_imp (fun _ => Thread.stake_of_mapRemoveOwed) owed)
  · exact .inl gone

/-- The size that `inserts` insertions in flight and `strandings` stranded entries
allow. -/
def overshootLimit (capacity strandings inserts : Nat) : Nat :=
  max capacity (strandings + 1) + inserts - 1

/-- One step of one call keeps the reservations within the limit. -/
theorem card_reserved_advance_le {index : BlockIndex} {thread : Thread} {others : List Thread}
    {stranded : Finset PrefixHash} {spent inserts : Nat}
    (reachable : index.Reachable (thread :: others) stranded)
    (fewStranded : stranded.card ≤ spent)
    (few : (thread :: others).countP Thread.inserting ≤ inserts)
    (within : (index.reserved (thread :: others)).card ≤
      overshootLimit index.capacity spent inserts) :
    ((index.advance thread).1.reserved ((index.advance thread).2 :: others)).card ≤
      overshootLimit index.capacity spent inserts := by
  have keeps {index' : BlockIndex} {thread' : Thread}
      (subset : index'.reserved (thread' :: others) ⊆ index.reserved (thread :: others)) :
      (index'.reserved (thread' :: others)).card ≤
        overshootLimit index.capacity spent inserts :=
    (Finset.card_le_card subset).trans within
  cases thread with
  | insertContainsKey key entry =>
      apply keeps
      apply reserved_subset (fun other member => .inl member)
      intro other owed
      by_cases present : index.contains key = true
      · simp only [advance, if_pos present] at owed
        obtain rfl := Option.some.inj owed
        show key ∈ index.map
        simpa [contains] using present
      · simp [advance, if_neg present, Thread.mapInsertOwed] at owed
  | insertLen key entry evicted =>
      simp only [advance]
      split
      · exact keeps (reserved_subset (fun other member => .inl member)
          fun other owed => by simp [Thread.mapInsertOwed] at owed)
      · rename_i room
        -- the size was below the capacity, and each other insertion adds one key
        have covers : ∀ other ∈ index.map, other ∈ index.map.keys.toFinset ∨
            Owes Thread.stake others other := by
          intro other present
          exact .inl (List.mem_toFinset.mpr (AList.mem_keys.mp present))
        refine (card_reserved_mapInsert_le covers).trans ?_
        rw [List.toFinset_card_of_nodup index.map.keys_nodup, ← len_eq_length_keys]
        rw [List.countP_cons_of_pos (by rfl)] at few
        simp only [overshootLimit]
        omega
  | insertEvictLru key entry evicted =>
      have evictReach := reachable.evict
      have keysLeft := index.lru.keys_evictLru
      have isLast := index.lru.evictLru_fst
      simp only [advance] at evictReach ⊢
      rcases evicting : index.lru.evictLru with ⟨_ | victim, lru⟩
      · rw [evicting] at keysLeft isLast evictReach
        have noKeys := List.getLast?_eq_none_iff.mp isLast.symm
        have empty : lru.keys = [] := by
          rw [show lru.keys = index.lru.keys.dropLast from keysLeft, noKeys, List.dropLast_nil]
        refine (card_reserved_mapInsert_le (evictReach.covers_of_no_keys empty)).trans ?_
        rw [List.countP_cons_of_pos (by rfl)] at few
        simp only [overshootLimit]
        omega
      · exact keeps (reserved_subset (fun other member => .inl member)
          fun other owed => by simp [Thread.mapInsertOwed] at owed)
  | insertMapRemove key entry evicted victim =>
      apply keeps
      apply reserved_subset
      · intro other member
        exact .inl (AList.mem_erase.mp member).2
      · intro other owed
        simp [advance, Thread.mapInsertOwed] at owed
  | insertMapInsert key entry evicted =>
      apply keeps
      apply reserved_subset
      · intro other member
        rcases (AList.mem_insert _).mp member with rfl | present
        · exact .inr rfl
        · exact .inl present
      · intro other owed
        simp [advance, Thread.mapInsertOwed] at owed
  | lookupGet key =>
      apply keeps
      apply reserved_subset
      · intro other member
        rw [show (index.advance (.lookupGet key)).1.map = index.map from
          index.lookup_map key] at member
        exact .inl member
      · intro other owed
        simp [advance, Thread.mapInsertOwed] at owed
  | removeMapRemove key =>
      simp only [advance]
      cases index.map.lookup key with
      | none =>
          exact keeps (reserved_subset (fun other member => .inl member)
            fun other owed => by simp [Thread.mapInsertOwed] at owed)
      | some entry =>
          exact keeps (reserved_subset (fun other member => .inl (AList.mem_erase.mp member).2)
            fun other owed => by simp [Thread.mapInsertOwed] at owed)
  | insertTouch key evicted | removeLruRemove key entry | containsKey key | returned result =>
      exact keeps (reserved_subset (fun other member => .inl member)
        fun other owed => by simp [advance, Thread.mapInsertOwed] at owed)

/-! ## Runs -/

namespace System

/-- The removals of a run that untracked a key of the map, one step at a time. -/
def strandings (system : System) : Action → Nat
  | .call _ => 0
  | .advance position =>
      match system.threads[position]? with
      | none => 0
      | some thread => (system.shared.strands thread).toNat

/-- At most `inserts` insertions are in flight when the action is taken. -/
def AtMost (inserts : Nat) (system : System) (_ : Action) : Prop :=
  system.threads.countP Thread.inserting ≤ inserts

instance (inserts : Nat) (system : System) (action : Action) :
    Decidable (AtMost inserts system action) :=
  inferInstanceAs (Decidable (_ ≤ _))

/-- At most `spent` entries were stranded, and the reservations are within the
limit that allows. -/
def Within (inserts spent : Nat) (system : System) : Prop :=
  ∃ stranded : Finset PrefixHash, stranded.card ≤ spent ∧
    system.shared.Reachable system.threads stranded ∧
    (system.shared.reserved system.threads).card ≤
      overshootLimit system.shared.capacity spent inserts

theorem new_within (capacity inserts : Nat) : Within inserts 0 (System.new capacity) := by
  refine ⟨∅, Nat.le_refl 0, ?_, ?_⟩
  · intro key member
    simp [System.new, BlockIndex.new] at member
  · simp [System.new, BlockIndex.new, reserved, owedFinset]

theorem overshootLimit_mono (capacity inserts : Nat) {few many : Nat} (le : few ≤ many) :
    overshootLimit capacity few inserts ≤ overshootLimit capacity many inserts := by
  simp only [overshootLimit]
  omega

/-- A call that arrives owes nothing. -/
theorem Within.call {inserts spent : Nat} {system : System}
    (within : Within inserts spent system) (call : Call) :
    Within inserts spent (system.step (.call call)) := by
  obtain ⟨stranded, few, reachable, bounded⟩ := within
  have front := threads_call Call.start advance system call
  refine ⟨stranded, few, ?_, ?_⟩
  · apply Reachable.perm _ front
    intro key member
    have before := reachable key member
    rw [owes_cons, owes_cons]
    cases call <;>
      exact before.imp_right (Or.imp .inr (Or.imp_left .inr))
  · refine le_of_eq_of_le ?_ bounded
    rw [← reserved_perm front]
    congr 1
    ext key
    rw [mem_reserved, mem_reserved]
    cases call <;> simp [Call.start, Thread.mapInsertOwed]

theorem step_within (inserts spent : Nat) (system : System) (action : Action)
    (few : AtMost inserts system action) (within : Within inserts spent system) :
    Within inserts (spent + system.strandings action) (system.step action) := by
  cases action with
  | call call => exact within.call call
  | advance position =>
      cases selected : system.threads[position]? with
      | none =>
          rw [step, step_advance_of_none _ _ selected, strandings, selected]
          exact within
      | some thread =>
          obtain ⟨stranded, fewStranded, reachable, bounded⟩ := within
          obtain ⟨others, before, indexEq, after⟩ := threads_advance Call.start advance selected
          have reachFront := reachable.perm before
          rw [reserved_perm before] at bounded
          obtain ⟨stranded', more, reachAfter⟩ := advance_reachable reachFront
          have boundedAfter := card_reserved_advance_le reachFront fewStranded
            (le_of_eq_of_le (before.countP_eq _).symm few) bounded
          simp only [strandings, selected]
          refine ⟨stranded', more.trans (Nat.add_le_add_right fewStranded _), ?_, ?_⟩
          · rw [step, indexEq]
            exact reachAfter.perm after
          · rw [step, indexEq, ← reserved_perm after, advance_capacity]
            exact boundedAfter.trans (overshootLimit_mono _ _ (Nat.le_add_right _ _))

end System

end BlockIndex

/-- However calls interleave, the map outgrows its capacity by less than the number
of insertions in flight at a time, except where removals stranded entries: those
count as if the capacity were used up by them. -/
theorem concurrent_inserts_overshoot_le (capacity inserts : Nat)
    (actions : List BlockIndex.Action)
    (few : Allows BlockIndex.System.step (BlockIndex.System.AtMost inserts)
      (BlockIndex.System.new capacity) actions) :
    let stranded := tally BlockIndex.System.step BlockIndex.System.strandings
      (BlockIndex.System.new capacity) actions
    (run BlockIndex.System.step (BlockIndex.System.new capacity) actions).shared.len ≤
      max capacity (stranded + 1) + inserts - 1 := by
  intro stranded
  obtain ⟨-, -, -, bounded⟩ := budget_run (BlockIndex.System.step_within inserts)
    (BlockIndex.System.new_within capacity inserts) few
  rw [BlockIndex.System.run_step_capacity, Nat.zero_add] at bounded
  exact (BlockIndex.len_le_card_reserved _ _).trans bounded

/-- Both bounds are met: two insertions into a map of capacity one, and one
insertion after a removal that stranded an entry. -/
theorem concurrent_inserts_overshoot_le_met :
    (let actions : List BlockIndex.Action :=
        [.call (.insert (.ofByte 1) [] 0), .call (.insert (.ofByte 2) [] 0), .advance 0,
          .advance 0, .advance 1, .advance 1, .advance 0, .advance 0, .advance 1, .advance 1]
      let system := run BlockIndex.System.step (BlockIndex.System.new 1) actions
      system.shared.len ≤ 2 ∧ system.shared.len = 2) ∧
    (let actions : List BlockIndex.Action :=
        [.call (.insert (.ofByte 1) [] 0), .advance 0, .advance 0, .advance 0, .advance 0,
          .call (.remove (.ofByte 1)), .advance 1, .call (.insert (.ofByte 1) [] 0), .advance 2,
          .advance 2, .advance 2, .advance 2, .advance 1, .call (.insert (.ofByte 2) [] 0),
          .advance 3, .advance 3, .advance 3, .advance 3, .advance 3]
      let system := run BlockIndex.System.step (BlockIndex.System.new 1) actions
      system.shared.len ≤ 2 ∧ system.shared.len = 2) := by
  refine ⟨⟨?_, by decide⟩, ⟨?_, by decide⟩⟩
  · exact concurrent_inserts_overshoot_le 1 2 _ (by decide)
  · exact concurrent_inserts_overshoot_le 1 1 _ (by decide)

end CmxRdma.BlockStore
