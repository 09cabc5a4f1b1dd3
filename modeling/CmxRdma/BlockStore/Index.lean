import CmxRdma.BlockStore.Block
import CmxRdma.BlockStore.EvictionOrder
import CmxRdma.Lib.Gather

/-!
Contract: `cmx-block-store/src/index.rs`, the prefix hash index.

Owns: the index entry, the block map with its LRU policy, `lookup`, `insert`,
`remove`, `len` and `contains` as whole calls, and what each call does to the
block locations the entries hold. The eviction loop of
`insert` carries a bound on its iterations; each iteration takes one key out of
the policy, so the policy's size plus one is never reached before the loop
leaves by itself (`IndexRefinement`).

Does not own: interleavings of the steps inside one call; see
`IndexConcurrency`.
-/

namespace CmxRdma.BlockStore

open CmxRdma.Lib.Gather

structure IndexEntry where
  blocks : List BlockLocation
  createdAt : UInt64
deriving DecidableEq, Repr

structure BlockIndex where
  map : AList (fun _ : PrefixHash => IndexEntry)
  lru : LruPolicy
  capacity : Nat

namespace BlockIndex

def new (capacity : Nat) : BlockIndex where
  map := ∅
  lru := LruPolicy.new
  capacity := capacity

/-- Number of entries in the map. -/
def len (index : BlockIndex) : Nat := index.map.entries.length

def contains (index : BlockIndex) (prefixHash : PrefixHash) : Bool :=
  decide (prefixHash ∈ index.map)

/-- `lookup`: a hit copies the entry and touches the policy. -/
def lookup (index : BlockIndex) (prefixHash : PrefixHash) : BlockIndex × Option IndexEntry :=
  match index.map.lookup prefixHash with
  | none => (index, none)
  | some entry => ({ index with lru := index.lru.touch prefixHash }, some entry)

/-- The `while` loop of `insert`: evict until the map is below capacity or the
policy has no victim left. -/
def evictWhileFull : Nat → BlockIndex → List PrefixHash → BlockIndex × List PrefixHash
  | 0, index, evicted => (index, evicted)
  | bound + 1, index, evicted =>
      if index.capacity ≤ index.len then
        match index.lru.evictLru with
        | (some victim, lru) =>
            evictWhileFull bound
              { index with map := index.map.erase victim, lru := lru } (evicted ++ [victim])
        | (none, lru) => ({ index with lru := lru }, evicted)
      else (index, evicted)

/-- The part of `insert` before the map is written. -/
def makeRoom (index : BlockIndex) (prefixHash : PrefixHash) : BlockIndex × List PrefixHash :=
  if index.contains prefixHash then (index, [])
  else evictWhileFull (index.lru.len + 1) index []

/-- `insert`: make room for a new key, write the entry, touch the policy, and
return the evicted keys. -/
def insert (index : BlockIndex) (prefixHash : PrefixHash) (blocks : List BlockLocation)
    (createdAt : UInt64) : BlockIndex × List PrefixHash :=
  let roomy := index.makeRoom prefixHash
  ({ roomy.1 with
      map := roomy.1.map.insert prefixHash ⟨blocks, createdAt⟩
      lru := roomy.1.lru.touch prefixHash }, roomy.2)

def remove (index : BlockIndex) (prefixHash : PrefixHash) : BlockIndex × Option IndexEntry :=
  match index.map.lookup prefixHash with
  | none => (index, none)
  | some entry =>
      ({ index with
          map := index.map.erase prefixHash
          lru := index.lru.remove prefixHash }, some entry)

/-! ## Sizes -/

theorem len_eq_length_keys (index : BlockIndex) : index.len = index.map.keys.length := by
  rw [len, AList.keys, List.keys, List.length_map]

theorem length_keys_insert_of_mem {map : AList (fun _ : PrefixHash => IndexEntry)}
    {prefixHash : PrefixHash} (present : prefixHash ∈ map) (entry : IndexEntry) :
    (map.insert prefixHash entry).keys.length = map.keys.length := by
  have member : prefixHash ∈ map.keys := present
  rw [AList.keys_insert, List.length_cons, List.length_erase_of_mem member]
  have := List.length_pos_of_mem member
  omega

theorem length_keys_insert_of_notMem {map : AList (fun _ : PrefixHash => IndexEntry)}
    {prefixHash : PrefixHash} (absent : prefixHash ∉ map) (entry : IndexEntry) :
    (map.insert prefixHash entry).keys.length = map.keys.length + 1 := by
  have notMember : prefixHash ∉ map.keys := absent
  rw [AList.keys_insert, List.length_cons, List.erase_of_not_mem notMember]

theorem length_keys_erase_le (map : AList (fun _ : PrefixHash => IndexEntry))
    (prefixHash : PrefixHash) : (map.erase prefixHash).keys.length ≤ map.keys.length := by
  rw [AList.keys_erase]
  exact List.length_erase_le

/-! ## Locations -/

/-- The block locations held by the entries, with multiplicity. -/
def locations (index : BlockIndex) : Multiset BlockLocation :=
  gather IndexEntry.blocks index.map

theorem lookup_map (index : BlockIndex) (prefixHash : PrefixHash) :
    (index.lookup prefixHash).1.map = index.map := by
  unfold lookup
  split <;> rfl

theorem lookup_snd (index : BlockIndex) (prefixHash : PrefixHash) :
    (index.lookup prefixHash).2 = index.map.lookup prefixHash := by
  unfold lookup
  split <;> simp_all

theorem remove_map (index : BlockIndex) (prefixHash : PrefixHash) :
    (index.remove prefixHash).1.map = index.map.erase prefixHash := by
  unfold remove
  split
  · rename_i missing
    exact (erase_of_lookup_eq_none missing).symm
  · rfl

theorem remove_snd (index : BlockIndex) (prefixHash : PrefixHash) :
    (index.remove prefixHash).2 = index.map.lookup prefixHash := by
  unfold remove
  split <;> simp_all

/-- Making room only drops entries. -/
theorem evictWhileFull_map {bound : Nat} {index : BlockIndex} {evicted : List PrefixHash} :
    (evictWhileFull bound index evicted).1.locations ≤ index.locations ∧
      ∀ prefixHash entry,
        (evictWhileFull bound index evicted).1.map.lookup prefixHash = some entry →
          index.map.lookup prefixHash = some entry := by
  induction bound generalizing index evicted with
  | zero => exact ⟨le_rfl, fun _ _ found => found⟩
  | succ bound inductionHypothesis =>
      unfold evictWhileFull
      split
      · split
        · rename_i victim lru evicting
          obtain ⟨fewer, kept⟩ := @inductionHypothesis
            { index with map := index.map.erase victim, lru := lru } (evicted ++ [victim])
          refine ⟨le_trans fewer (gather_erase_le victim), ?_⟩
          intro prefixHash entry found
          have survives := kept prefixHash entry found
          by_cases isVictim : prefixHash = victim
          · subst isVictim
            rw [show AList.lookup prefixHash (index.map.erase prefixHash) = none from
              AList.lookup_erase _ _] at survives
            cases survives
          · rwa [AList.lookup_erase_ne isVictim] at survives
        · exact ⟨le_rfl, fun _ _ found => found⟩
      · exact ⟨le_rfl, fun _ _ found => found⟩

theorem makeRoom_map (index : BlockIndex) (prefixHash : PrefixHash) :
    (index.makeRoom prefixHash).1.locations ≤ index.locations ∧
      ∀ other entry, (index.makeRoom prefixHash).1.map.lookup other = some entry →
        index.map.lookup other = some entry := by
  unfold makeRoom
  split
  · exact ⟨le_rfl, fun _ _ found => found⟩
  · exact evictWhileFull_map

theorem insert_locations_eq (index : BlockIndex) (prefixHash : PrefixHash)
    (blocks : List BlockLocation) (createdAt : UInt64) :
    (index.insert prefixHash blocks createdAt).1.locations =
      ↑blocks + gather IndexEntry.blocks ((index.makeRoom prefixHash).1.map.erase prefixHash) :=
  gather_insert prefixHash _

/-- An insert adds the given blocks and may drop others. -/
theorem insert_locations_le (index : BlockIndex) (prefixHash : PrefixHash)
    (blocks : List BlockLocation) (createdAt : UInt64) :
    (index.insert prefixHash blocks createdAt).1.locations ≤ ↑blocks + index.locations := by
  rw [insert_locations_eq]
  exact Multiset.add_le_add_left
    (le_trans (gather_erase_le prefixHash) (index.makeRoom_map prefixHash).1)

/-- After an insert an entry is the new one or was there before. -/
theorem lookup_of_lookup_insert {index : BlockIndex} {prefixHash other : PrefixHash}
    {blocks : List BlockLocation} {createdAt : UInt64} {entry : IndexEntry}
    (found : (index.insert prefixHash blocks createdAt).1.map.lookup other = some entry) :
    other = prefixHash ∧ entry = ⟨blocks, createdAt⟩ ∨ index.map.lookup other = some entry := by
  by_cases same : other = prefixHash
  · subst same
    left
    have written : (index.insert other blocks createdAt).1.map.lookup other =
        some ⟨blocks, createdAt⟩ := AList.lookup_insert _
    exact ⟨rfl, Option.some.inj (found.symm.trans written)⟩
  · right
    have kept : (index.insert prefixHash blocks createdAt).1.map.lookup other =
        (index.makeRoom prefixHash).1.map.lookup other := AList.lookup_insert_ne same
    exact (index.makeRoom_map prefixHash).2 other entry (kept ▸ found)

/-- The eviction loop drops the entries of the keys it returns and keeps the others. -/
theorem evictWhileFull_lookup (bound : Nat) (index : BlockIndex) (evicted : List PrefixHash) :
    ∃ victims, (evictWhileFull bound index evicted).2 = evicted ++ victims ∧
      ∀ key, (evictWhileFull bound index evicted).1.map.lookup key =
        if key ∈ victims then none else index.map.lookup key := by
  induction bound generalizing index evicted with
  | zero => exact ⟨[], by simp [evictWhileFull], by simp [evictWhileFull]⟩
  | succ bound inductionHypothesis =>
      unfold evictWhileFull
      split
      · split
        · rename_i victim lru evicting
          obtain ⟨victims, returned, kept⟩ := inductionHypothesis
            { index with map := index.map.erase victim, lru := lru } (evicted ++ [victim])
          refine ⟨victim :: victims, by rw [returned, List.append_assoc]; rfl, ?_⟩
          intro key
          rw [kept key]
          by_cases isVictim : key = victim
          · subst isVictim
            simp
          · simp [isVictim, AList.lookup_erase_ne isVictim]
        · exact ⟨[], by simp, by simp⟩
      · exact ⟨[], by simp, by simp⟩

theorem lookup_makeRoom (index : BlockIndex) (prefixHash key : PrefixHash) :
    (index.makeRoom prefixHash).1.map.lookup key =
      if key ∈ (index.makeRoom prefixHash).2 then none else index.map.lookup key := by
  unfold makeRoom
  split
  · simp
  · obtain ⟨victims, returned, kept⟩ := evictWhileFull_lookup (index.lru.len + 1) index []
    rw [returned, List.nil_append]
    exact kept key

/-- What an insert leaves under a key: the new entry, nothing if the key was evicted,
or what was there. -/
theorem lookup_insert (index : BlockIndex) (prefixHash : PrefixHash)
    (blocks : List BlockLocation) (createdAt : UInt64) (key : PrefixHash) :
    (index.insert prefixHash blocks createdAt).1.map.lookup key =
      if key = prefixHash then some ⟨blocks, createdAt⟩
      else if key ∈ (index.insert prefixHash blocks createdAt).2 then none
      else index.map.lookup key := by
  by_cases same : key = prefixHash
  · rw [if_pos same, same]
    exact AList.lookup_insert _
  · rw [if_neg same]
    exact (AList.lookup_insert_ne same).trans (index.lookup_makeRoom prefixHash key)

/-- A remove that returns an entry takes its blocks out. -/
theorem locations_eq_of_remove {index : BlockIndex} {prefixHash : PrefixHash} {entry : IndexEntry}
    (removed : (index.remove prefixHash).2 = some entry) :
    index.locations = ↑entry.blocks + (index.remove prefixHash).1.locations := by
  rw [remove_snd] at removed
  rw [locations, locations, remove_map]
  exact gather_eq_of_lookup removed

end BlockIndex

end CmxRdma.BlockStore
