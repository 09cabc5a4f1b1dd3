import CmxRdma.BlockStore.Index
import CmxRdma.Lib.RecencyMap
import CmxRdma.Lib.Transition

/-!
Contract: `BlockIndex` called one operation at a time is the ideal bounded LRU
map.

Owns: the refinement relation between the index and a recency-ordered list, its
preservation by `lookup`, `insert` and `remove`, the number of victims of the
eviction loop, and the refinement of whole call sequences.

Does not own: calls whose steps interleave; see `IndexConcurrency`.
-/

namespace CmxRdma.BlockStore

open CmxRdma.Lib
open CmxRdma.Lib.Transition

/-- The policy's `len` counts the keys of its list. -/
theorem LruPolicy.len_eq (policy : LruPolicy) : policy.len = policy.keys.length := by
  obtain ⟨nodes, represents⟩ := policy.wellFormed
  have sameKeys : policy.inner.index.keys.Perm (nodes.map Prod.fst) := by
    rw [List.perm_ext_iff_of_nodup policy.inner.index.keys_nodup represents.keysNodup]
    intro key
    rw [← AList.mem_keys, ← AList.lookup_isSome, Option.isSome_iff_exists, List.mem_map]
    constructor
    · rintro ⟨slot, found⟩
      exact ⟨(key, slot), (represents.indexed key slot).mp found, rfl⟩
    · rintro ⟨node, member, rfl⟩
      exact ⟨node.2, (represents.indexed node.1 node.2).mpr member⟩
  have sameLength := sameKeys.length_eq
  rw [AList.keys, List.keys, List.length_map] at sameLength
  rw [LruPolicy.len, sameLength, LruPolicy.keys, represents.keys_eq]

namespace BlockIndex

/-- The index shows the recency list `ideal`: the policy is in its order and the
map holds its entries. -/
structure Refines (index : BlockIndex) (ideal : List (PrefixHash × IndexEntry)) : Prop where
  order : index.lru.keys = ideal.map Prod.fst
  find : ∀ key, index.map.lookup key = RecencyMap.find key ideal

theorem Refines.nodup {index : BlockIndex} {ideal : List (PrefixHash × IndexEntry)}
    (refines : index.Refines ideal) : (ideal.map Prod.fst).Nodup :=
  refines.order ▸ index.lru.keys_nodup

theorem Refines.mem_iff {index : BlockIndex} {ideal : List (PrefixHash × IndexEntry)}
    (refines : index.Refines ideal) (key : PrefixHash) :
    key ∈ index.map ↔ key ∈ ideal.map Prod.fst := by
  rw [← AList.lookup_isSome, refines.find, RecencyMap.find_isSome_iff]

theorem Refines.len_eq {index : BlockIndex} {ideal : List (PrefixHash × IndexEntry)}
    (refines : index.Refines ideal) : index.len = ideal.length := by
  have sameKeys : index.map.keys.Perm (ideal.map Prod.fst) := by
    rw [List.perm_ext_iff_of_nodup index.map.keys_nodup refines.nodup]
    intro key
    rw [← AList.mem_keys]
    exact refines.mem_iff key
  have sameLength := sameKeys.length_eq
  rwa [AList.keys, List.keys, List.length_map, List.length_map] at sameLength

theorem new_refines (capacity : Nat) : (BlockIndex.new capacity).Refines [] where
  order := rfl
  find := fun _ => rfl

/-! ## Lookup and remove -/

theorem lookup_refines {index : BlockIndex} {ideal : List (PrefixHash × IndexEntry)}
    (refines : index.Refines ideal) (key : PrefixHash) :
    (index.lookup key).2 = RecencyMap.find key ideal ∧
      (index.lookup key).1.Refines (RecencyMap.bring key ideal) := by
  unfold lookup RecencyMap.bring
  rw [← refines.find key]
  cases found : index.map.lookup key with
  | none => exact ⟨rfl, refines⟩
  | some entry =>
      refine ⟨rfl, ⟨?_, ?_⟩⟩
      · rw [LruPolicy.keys_touch, refines.order, List.map_cons,
          RecencyMap.keys_erase refines.nodup]
      · intro other
        by_cases same : key = other
        · rw [← same, RecencyMap.find_cons_self]
          exact found
        · rw [RecencyMap.find_cons_ne same, RecencyMap.find_erase_ne (Ne.symm same)]
          exact refines.find other

theorem remove_refines {index : BlockIndex} {ideal : List (PrefixHash × IndexEntry)}
    (refines : index.Refines ideal) (key : PrefixHash) :
    (index.remove key).2 = RecencyMap.find key ideal ∧
      (index.remove key).1.Refines (RecencyMap.erase key ideal) := by
  unfold remove
  cases found : index.map.lookup key with
  | none =>
      have absent : key ∉ ideal.map Prod.fst := by
        rw [← RecencyMap.find_eq_none_iff, ← refines.find, found]
      refine ⟨by rw [← refines.find, found], ?_⟩
      rw [RecencyMap.erase_of_notMem absent]
      exact refines
  | some entry =>
      refine ⟨by rw [← refines.find, found], ⟨?_, ?_⟩⟩
      · rw [LruPolicy.keys_remove, refines.order, RecencyMap.keys_erase refines.nodup]
      · intro other
        by_cases same : other = key
        · rw [same, AList.lookup_erase, RecencyMap.find_erase_self]
        · rw [AList.lookup_erase_ne same, RecencyMap.find_erase_ne same]
          exact refines.find other

/-! ## Making room -/

/-- One iteration of the eviction loop drops the least recent entry. -/
theorem evict_refines {index : BlockIndex} {front : List (PrefixHash × IndexEntry)}
    {last : PrefixHash × IndexEntry} (refines : index.Refines (front ++ [last])) :
    index.lru.evictLru.1 = some last.1 ∧
      Refines { index with map := index.map.erase last.1, lru := index.lru.evictLru.2 } front := by
  refine ⟨?_, ⟨?_, ?_⟩⟩
  · simp [LruPolicy.evictLru_fst, refines.order]
  · simp [LruPolicy.keys_evictLru, refines.order]
  · intro key
    rw [RecencyMap.find_append_singleton refines.nodup]
    by_cases isLast : key = last.1
    · rw [if_pos isLast, isLast, AList.lookup_erase]
    · rw [if_neg isLast, AList.lookup_erase_ne isLast]
      exact refines.find key

/-- With nothing tracked the loop leaves at once. -/
theorem evictWhileFull_empty {index : BlockIndex} (refines : index.Refines []) (bound : Nat)
    (evicted : List PrefixHash) :
    (evictWhileFull (bound + 1) index evicted).2 = evicted ∧
      (evictWhileFull (bound + 1) index evicted).1.Refines [] ∧
      (evictWhileFull (bound + 1) index evicted).1.capacity = index.capacity := by
  have noVictim : index.lru.evictLru.1 = none := by
    simp [LruPolicy.evictLru_fst, refines.order]
  have noKeys : index.lru.evictLru.2.keys = [] := by
    simp [LruPolicy.keys_evictLru, refines.order]
  rcases evicting : index.lru.evictLru with ⟨victim, lru⟩
  rw [evicting] at noVictim noKeys
  simp only at noVictim noKeys
  subst noVictim
  unfold evictWhileFull
  split
  · rw [evicting]
    exact ⟨rfl, ⟨noKeys, refines.find⟩, rfl⟩
  · exact ⟨rfl, refines, rfl⟩

/-- Below capacity the loop leaves at once. -/
theorem evictWhileFull_of_room {index : BlockIndex} (room : index.len < index.capacity)
    (bound : Nat) (evicted : List PrefixHash) :
    evictWhileFull (bound + 1) index evicted = (index, evicted) := by
  rw [evictWhileFull, if_neg (Nat.not_le.mpr room)]

/-- A full index gives up its last entry; after that the map is below capacity, or the
policy has no victim left. -/
theorem evictWhileFull_of_full {index : BlockIndex} {front : List (PrefixHash × IndexEntry)}
    {last : PrefixHash × IndexEntry} (refines : index.Refines (front ++ [last]))
    (full : index.capacity ≤ index.len) (bounded : front.length + 1 ≤ max 1 index.capacity) :
    ∃ after, evictWhileFull (index.lru.len + 1) index [] = (after, [last.1]) ∧
      after.Refines front ∧ after.capacity = index.capacity := by
  have lruLen : index.lru.len = front.length + 1 := by
    rw [LruPolicy.len_eq, refines.order, List.length_map, List.length_append,
      List.length_singleton]
  obtain ⟨victim, evicted⟩ := evict_refines refines
  rcases evicting : index.lru.evictLru with ⟨found, lru⟩
  rw [evicting] at victim evicted
  simp only at victim evicted
  subst victim
  have unrolled : evictWhileFull (index.lru.len + 1) index [] =
      evictWhileFull (front.length + 1)
        { index with map := index.map.erase last.1, lru := lru } [last.1] := by
    rw [evictWhileFull, if_pos full, evicting, lruLen]
    rfl
  rw [unrolled]
  cases front with
  | nil =>
      have atOnce := evictWhileFull_empty evicted 0 [last.1]
      exact ⟨_, Prod.ext rfl atOnce.1, atOnce.2.1, atOnce.2.2⟩
  | cons first rest =>
      refine ⟨_, evictWhileFull_of_room ?_ _ _, evicted, rfl⟩
      rw [evicted.len_eq]
      simp only [List.length_cons] at bounded ⊢
      omega

/-- The loop of `insert` drops exactly the least recent entry when the index is
full, and nothing otherwise. A capacity of zero behaves as a capacity of one:
the loop also stops when the policy has no victim left. -/
theorem evictWhileFull_refines {index : BlockIndex} {ideal : List (PrefixHash × IndexEntry)}
    (refines : index.Refines ideal) (bounded : ideal.length ≤ max 1 index.capacity) :
    (evictWhileFull (index.lru.len + 1) index []).1.capacity = index.capacity ∧
      if ideal.length < max 1 index.capacity then
        (evictWhileFull (index.lru.len + 1) index []).2 = [] ∧
          (evictWhileFull (index.lru.len + 1) index []).1.Refines ideal
      else
        (evictWhileFull (index.lru.len + 1) index []).2 = (ideal.map Prod.fst).getLast?.toList ∧
          (evictWhileFull (index.lru.len + 1) index []).1.Refines ideal.dropLast := by
  rcases List.eq_nil_or_concat ideal with empty | ⟨front, last, split⟩
  · subst empty
    have atOnce := evictWhileFull_empty refines index.lru.len []
    rw [if_pos (by simp)]
    exact ⟨atOnce.2.2, atOnce.1, atOnce.2.1⟩
  · rw [List.concat_eq_append] at split
    subst split
    have lenEq : index.len = front.length + 1 := by
      rw [refines.len_eq, List.length_append, List.length_singleton]
    rw [List.length_append, List.length_singleton] at bounded ⊢
    by_cases room : front.length + 1 < max 1 index.capacity
    · -- at least one entry and still below the bound, so the capacity itself is not reached
      rw [evictWhileFull_of_room (by omega)]
      simp [room, refines]
    · obtain ⟨after, afterEq, afterRefines, afterCapacity⟩ :=
        evictWhileFull_of_full refines (by omega) bounded
      rw [afterEq]
      simp [room, afterRefines, afterCapacity]

/-! ## Insert -/

/-- Writing an entry and touching its key puts it in front of what is left. -/
theorem Refines.write {index : BlockIndex} {ideal : List (PrefixHash × IndexEntry)}
    (refines : index.Refines ideal) (key : PrefixHash) (entry : IndexEntry) :
    Refines { index with map := index.map.insert key entry, lru := index.lru.touch key }
      ((key, entry) :: RecencyMap.erase key ideal) := by
  refine ⟨?_, ?_⟩
  · rw [LruPolicy.keys_touch, refines.order, List.map_cons, RecencyMap.keys_erase refines.nodup]
  · intro other
    by_cases same : key = other
    · subst same
      rw [AList.lookup_insert, RecencyMap.find_cons_self]
    · rw [AList.lookup_insert_ne (Ne.symm same), RecencyMap.find_cons_ne same,
        RecencyMap.find_erase_ne (Ne.symm same)]
      exact refines.find other

theorem insert_refines {index : BlockIndex} {ideal : List (PrefixHash × IndexEntry)}
    (refines : index.Refines ideal) (bounded : ideal.length ≤ max 1 index.capacity)
    (key : PrefixHash) (blocks : List BlockLocation) (createdAt : UInt64) :
    (index.insert key blocks createdAt).2 =
        (RecencyMap.put (max 1 index.capacity) key ⟨blocks, createdAt⟩ ideal).1 ∧
      (index.insert key blocks createdAt).1.Refines
        (RecencyMap.put (max 1 index.capacity) key ⟨blocks, createdAt⟩ ideal).2 ∧
      (index.insert key blocks createdAt).1.capacity = index.capacity := by
  unfold insert makeRoom RecencyMap.put contains
  by_cases present : key ∈ index.map
  · have presentIdeal := (refines.mem_iff key).mp present
    simp only [present, presentIdeal, decide_true, ↓reduceIte, true_and]
    exact ⟨refines.write key ⟨blocks, createdAt⟩, trivial⟩
  · have absentIdeal : key ∉ ideal.map Prod.fst := fun member =>
      present ((refines.mem_iff key).mpr member)
    obtain ⟨capacityKept, outcome⟩ := evictWhileFull_refines refines bounded
    by_cases room : ideal.length < max 1 index.capacity
    · rw [if_pos room] at outcome
      have final := outcome.2.write key ⟨blocks, createdAt⟩
      rw [RecencyMap.erase_of_notMem absentIdeal] at final
      simp only [present, absentIdeal, room, decide_false, Bool.false_eq_true, ↓reduceIte]
      exact ⟨outcome.1, final, capacityKept⟩
    · rw [if_neg room] at outcome
      have absentLeft : key ∉ ideal.dropLast.map Prod.fst := by
        intro member
        rw [List.map_dropLast] at member
        exact absentIdeal (List.dropLast_subset _ member)
      have final := outcome.2.write key ⟨blocks, createdAt⟩
      rw [RecencyMap.erase_of_notMem absentLeft] at final
      simp only [present, absentIdeal, room, decide_false, Bool.false_eq_true, ↓reduceIte]
      exact ⟨outcome.1, final, capacityKept⟩

/-! ## Call sequences -/

/-- One whole call on the index. -/
inductive Call where
  | lookup (key : PrefixHash)
  | insert (key : PrefixHash) (blocks : List BlockLocation) (createdAt : UInt64)
  | remove (key : PrefixHash)
  | contains (key : PrefixHash)

/-- What a call returns. -/
inductive Result where
  | entry (found : Option IndexEntry)
  | evicted (keys : List PrefixHash)
  | flag (present : Bool)
deriving DecidableEq

def step (index : BlockIndex) : Call → BlockIndex × Result
  | .lookup key => ((index.lookup key).1, .entry (index.lookup key).2)
  | .insert key blocks createdAt =>
      ((index.insert key blocks createdAt).1, .evicted (index.insert key blocks createdAt).2)
  | .remove key => ((index.remove key).1, .entry (index.remove key).2)
  | .contains key => (index, .flag (index.contains key))

/-- The calls of the index on the ideal map of the given capacity. -/
def idealStep (capacity : Nat) (ideal : List (PrefixHash × IndexEntry)) :
    Call → List (PrefixHash × IndexEntry) × Result
  | .lookup key => (RecencyMap.bring key ideal, .entry (RecencyMap.find key ideal))
  | .insert key blocks createdAt =>
      ((RecencyMap.put capacity key ⟨blocks, createdAt⟩ ideal).2,
        .evicted (RecencyMap.put capacity key ⟨blocks, createdAt⟩ ideal).1)
  | .remove key => (RecencyMap.erase key ideal, .entry (RecencyMap.find key ideal))
  | .contains key => (ideal, .flag (decide (key ∈ ideal.map Prod.fst)))

/-- What holds between the index and the ideal map after every call. -/
structure Simulates (capacity : Nat) (index : BlockIndex)
    (ideal : List (PrefixHash × IndexEntry)) : Prop where
  refines : index.Refines ideal
  capacityEq : index.capacity = capacity
  bounded : ideal.length ≤ max 1 capacity

theorem step_simulates {capacity : Nat} {index : BlockIndex}
    {ideal : List (PrefixHash × IndexEntry)} (call : Call)
    (simulates : Simulates capacity index ideal) :
    (index.step call).2 = (idealStep (max 1 capacity) ideal call).2 ∧
      Simulates capacity (index.step call).1 (idealStep (max 1 capacity) ideal call).1 := by
  obtain ⟨refines, capacityEq, bounded⟩ := simulates
  cases call with
  | lookup key =>
      obtain ⟨sameResult, stillRefines⟩ := lookup_refines refines key
      refine ⟨congrArg Result.entry sameResult, stillRefines, ?_, ?_⟩
      · rw [← capacityEq]
        simp only [step, lookup]
        split <;> rfl
      · exact le_trans (RecencyMap.length_bring_le key ideal) bounded
  | insert key blocks createdAt =>
      obtain ⟨sameResult, stillRefines, capacityKept⟩ :=
        insert_refines refines (capacityEq ▸ bounded) key blocks createdAt
      rw [capacityEq] at sameResult stillRefines capacityKept
      exact ⟨congrArg Result.evicted sameResult, stillRefines, capacityKept,
        RecencyMap.length_put_le (le_max_left 1 capacity) bounded⟩
  | remove key =>
      obtain ⟨sameResult, stillRefines⟩ := remove_refines refines key
      refine ⟨congrArg Result.entry sameResult, stillRefines, ?_, ?_⟩
      · rw [← capacityEq]
        simp only [step, remove]
        split <;> rfl
      · exact le_trans (RecencyMap.length_erase_le key ideal) bounded
  | contains key =>
      refine ⟨?_, refines, capacityEq, bounded⟩
      simp only [step, idealStep, contains, refines.mem_iff key]

theorem new_simulates (capacity : Nat) : Simulates capacity (BlockIndex.new capacity) [] where
  refines := new_refines capacity
  capacityEq := rfl
  bounded := Nat.zero_le _

/-- Every sequence of calls answers as the ideal map does and ends in a state
that still shows it. -/
theorem outputs_simulate (capacity : Nat) (calls : List Call) :
    outputs step (BlockIndex.new capacity) calls =
        outputs (idealStep (max 1 capacity)) [] calls ∧
      Simulates capacity (run (next step) (BlockIndex.new capacity) calls)
        (run (next (idealStep (max 1 capacity))) [] calls) :=
  outputs_eq_of_simulation (fun _ _ call simulates => step_simulates call simulates)
    (new_simulates capacity) calls

/-- What one `insert` returns in a state that shows `ideal`: nothing for a
present key or a map below capacity, the least recent key for a new key that
meets a full map, and always exactly the keys that left the map. -/
theorem insert_evicted {capacity : Nat} (positive : 1 ≤ capacity) {index : BlockIndex}
    {ideal : List (PrefixHash × IndexEntry)} (simulates : Simulates capacity index ideal)
    (key : PrefixHash) (blocks : List BlockLocation) (createdAt : UInt64) :
    (key ∈ index.map → (index.insert key blocks createdAt).2 = []) ∧
      (key ∉ index.map → index.len < capacity → (index.insert key blocks createdAt).2 = []) ∧
      (key ∉ index.map → index.len = capacity →
        ∃ last, (ideal.map Prod.fst).getLast? = some last ∧
          (index.insert key blocks createdAt).2 = [last]) ∧
      ∀ other, other ∈ (index.insert key blocks createdAt).2 ↔
        other ∈ index.map ∧ other ∉ (index.insert key blocks createdAt).1.map := by
  obtain ⟨refines, capacityEq, bounded⟩ := simulates
  obtain ⟨sameResult, stillRefines, -⟩ :=
    insert_refines refines (capacityEq ▸ bounded) key blocks createdAt
  rw [capacityEq, max_eq_right positive] at sameResult stillRefines
  rw [refines.len_eq]
  simp only [refines.mem_iff, stillRefines.mem_iff, sameResult]
  refine ⟨fun present => ?_, fun absent room => ?_, fun absent full => ?_, fun other => ?_⟩
  · rw [RecencyMap.put, if_pos present]
  · rw [RecencyMap.put, if_neg absent, if_pos room]
  · obtain ⟨front, last, split⟩ := List.eq_nil_or_concat ideal |>.resolve_left (by
      rintro rfl
      simp only [List.length_nil] at full
      omega)
    rw [List.concat_eq_append] at split
    subst split
    refine ⟨last.1, by simp, ?_⟩
    rw [RecencyMap.put, if_neg absent, if_neg (by omega)]
    simp
  · exact RecencyMap.mem_evicted_iff refines.nodup

/-! ## Reachable indices -/

/-- The index shows some ideal map of its own capacity, as it does after every
sequence of whole calls. -/
def Tracks (index : BlockIndex) : Prop := ∃ ideal, Simulates index.capacity index ideal

theorem new_tracks (capacity : Nat) : (BlockIndex.new capacity).Tracks :=
  ⟨[], new_simulates capacity⟩

theorem Tracks.step {index : BlockIndex} (tracks : index.Tracks) (call : Call) :
    (index.step call).1.Tracks ∧ (index.step call).1.capacity = index.capacity := by
  obtain ⟨ideal, simulates⟩ := tracks
  have stepped := (step_simulates call simulates).2
  refine ⟨⟨(idealStep (max 1 index.capacity) ideal call).1, ?_⟩, stepped.capacityEq⟩
  rw [stepped.capacityEq]
  exact stepped

/-- Inserting grows the index only for a new key below capacity; a capacity of
zero admits one entry. -/
theorem Tracks.len_insert {index : BlockIndex} (tracks : index.Tracks) (key : PrefixHash)
    (blocks : List BlockLocation) (createdAt : UInt64) :
    (index.insert key blocks createdAt).1.len =
      if key ∈ index.map ∨ max 1 index.capacity ≤ index.len then index.len else index.len + 1 := by
  obtain ⟨ideal, refines, -, bounded⟩ := tracks
  obtain ⟨-, inserted, -⟩ := insert_refines refines bounded key blocks createdAt
  rw [inserted.len_eq, RecencyMap.length_put (le_max_left 1 index.capacity) refines.nodup]
  simp only [refines.len_eq, refines.mem_iff key]

theorem Tracks.len_remove {index : BlockIndex} (tracks : index.Tracks) {key : PrefixHash}
    (present : key ∈ index.map) : (index.remove key).1.len = index.len - 1 := by
  obtain ⟨ideal, refines, -, -⟩ := tracks
  obtain ⟨-, removed⟩ := remove_refines refines key
  rw [removed.len_eq, refines.len_eq,
    RecencyMap.length_erase_of_mem refines.nodup ((refines.mem_iff key).mp present)]

/-- Below capacity an `insert` evicts nobody. -/
theorem Tracks.insert_below_capacity {index : BlockIndex} (tracks : index.Tracks)
    (room : index.len < index.capacity) (key : PrefixHash) (blocks : List BlockLocation)
    (createdAt : UInt64) :
    (index.insert key blocks createdAt).2 = [] ∧
      ∀ other ∈ index.map, other ∈ (index.insert key blocks createdAt).1.map := by
  obtain ⟨ideal, simulates⟩ := tracks
  obtain ⟨overwrites, grows, -, evictedIff⟩ :=
    insert_evicted (by omega) simulates key blocks createdAt
  have nobody : (index.insert key blocks createdAt).2 = [] := by
    by_cases present : key ∈ index.map
    · exact overwrites present
    · exact grows present room
  refine ⟨nobody, fun other present => ?_⟩
  by_contra gone
  have evicted := (evictedIff other).mpr ⟨present, gone⟩
  rw [nobody] at evicted
  cases evicted

end BlockIndex

/-- `BlockIndex` refines the ideal LRU map, for every capacity and every finite
sequence of calls: equal results, the map and the policy track the same keys in
the ideal order, the capacity is never exceeded, an `insert` evicts what the
ideal map evicts and reports exactly the keys that left, and `contains` changes
nothing. -/
theorem blockIndex_refines_ideal_lru (capacity : Nat) (positive : 1 ≤ capacity)
    (calls : List BlockIndex.Call) :
    let index := run (next BlockIndex.step) (BlockIndex.new capacity) calls
    let ideal := run (next (BlockIndex.idealStep capacity)) [] calls
    outputs BlockIndex.step (BlockIndex.new capacity) calls =
        outputs (BlockIndex.idealStep capacity) [] calls ∧
      index.lru.keys = ideal.map Prod.fst ∧
      (∀ key, key ∈ index.map ↔ key ∈ index.lru.keys) ∧
      (∀ key, index.map.lookup key = RecencyMap.find key ideal) ∧
      index.len = ideal.length ∧ index.len ≤ capacity ∧
      (∀ key blocks createdAt,
        (key ∈ index.map → (index.insert key blocks createdAt).2 = []) ∧
        (key ∉ index.map → index.len < capacity → (index.insert key blocks createdAt).2 = []) ∧
        (key ∉ index.map → index.len = capacity →
          ∃ last, (ideal.map Prod.fst).getLast? = some last ∧
            (index.insert key blocks createdAt).2 = [last]) ∧
        ∀ other, other ∈ (index.insert key blocks createdAt).2 ↔
          other ∈ index.map ∧ other ∉ (index.insert key blocks createdAt).1.map) ∧
      ∀ key, (index.step (.contains key)).1 = index := by
  intro index ideal
  have simulated := BlockIndex.outputs_simulate capacity calls
  rw [max_eq_right positive] at simulated
  obtain ⟨sameOutputs, simulates⟩ := simulated
  have bounded := simulates.bounded
  rw [max_eq_right positive] at bounded
  refine ⟨sameOutputs, simulates.refines.order, ?_, simulates.refines.find,
    simulates.refines.len_eq, simulates.refines.len_eq ▸ bounded,
    BlockIndex.insert_evicted positive simulates, fun _ => rfl⟩
  intro key
  rw [simulates.refines.mem_iff key, simulates.refines.order]

/-- Capacity two, a hit that saves the oldest key, and an eviction. -/
theorem blockIndex_refines_ideal_lru_two :
    1 ≤ 2 ∧
      outputs BlockIndex.step (BlockIndex.new 2)
          [.insert (.ofByte 1) [] 0, .insert (.ofByte 2) [] 0, .lookup (.ofByte 1),
            .insert (.ofByte 3) [] 0, .contains (.ofByte 2)] =
        outputs (BlockIndex.idealStep 2) []
          [.insert (.ofByte 1) [] 0, .insert (.ofByte 2) [] 0, .lookup (.ofByte 1),
            .insert (.ofByte 3) [] 0, .contains (.ofByte 2)] :=
  ⟨by decide, (blockIndex_refines_ideal_lru 2 (by decide) _).1⟩

end CmxRdma.BlockStore
