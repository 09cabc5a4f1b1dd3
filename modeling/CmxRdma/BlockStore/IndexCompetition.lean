import CmxRdma.BlockStore.IndexRefinement
import CmxRdma.Lib.Balance
import CmxRdma.Lib.RecencyCompetition

/-!
Contract: how many lookups of a `BlockIndex` can miss that need not have missed.

Owns: the index as its clients use it, a lookup followed by an insertion where it
missed, beside any other cache that serves the same requests, and the bound on the
misses of the index by those of the other cache, whatever that one keeps and however
much of the future it knows.

Does not own: removals. An entry a client deletes is missed by any cache.
-/

namespace CmxRdma.BlockStore

open CmxRdma.Lib
open CmxRdma.Lib.Balance
open CmxRdma.Lib.Transition

namespace BlockIndex

/-- A client looks a key up and, where it is not cached, inserts what it then has to
compute. -/
def lookupOrInsert (index : BlockIndex) (key : PrefixHash) (blocks : List BlockLocation)
    (createdAt : UInt64) : BlockIndex :=
  match index.lookup key with
  | (touched, some _) => touched
  | (missed, none) => (missed.insert key blocks createdAt).1

/-- The index and the keys another cache holds. -/
structure Race where
  index : BlockIndex
  rival : Finset PrefixHash

/-- A request, and what the other cache holds once it has served it. -/
structure Fetch where
  key : PrefixHash
  blocks : List BlockLocation
  createdAt : UInt64
  kept : Finset PrefixHash

namespace Race

def start (capacity : Nat) : Race where
  index := BlockIndex.new capacity
  rival := ∅

def step (race : Race) (fetch : Fetch) : Race where
  index := race.index.lookupOrInsert fetch.key fetch.blocks fetch.createdAt
  rival := fetch.kept

/-- The other cache has `size` places and gets a key only when it is requested. -/
def Fair (size : Nat) (race : Race) (fetch : Fetch) : Prop :=
  RecencyCompetition.Serves size race.rival fetch.key fetch.kept

instance (size : Nat) (race : Race) (fetch : Fetch) : Decidable (race.Fair size fetch) :=
  inferInstanceAs (Decidable (RecencyCompetition.Serves _ _ _ _))

def missed (race : Race) (fetch : Fetch) : Nat :=
  if (race.index.lookup fetch.key).2.isSome then 0 else 1

def rivalMissed (race : Race) (fetch : Fetch) : Nat :=
  if fetch.key ∈ race.rival then 0 else 1

end Race

/-! ## One request on the index -/

theorem lookup_isSome_iff {index : BlockIndex} (tracks : index.Tracks) (key : PrefixHash) :
    (index.lookup key).2.isSome = true ↔ key ∈ index.lru.keys := by
  obtain ⟨ideal, refines, -⟩ := tracks
  rw [(lookup_refines refines key).1, RecencyMap.find_isSome_iff, refines.order]

/-- The policy's keys after a request are those of a recency list. -/
theorem lookupOrInsert_spec {index : BlockIndex} (tracks : index.Tracks)
    (positive : 1 ≤ index.capacity) (key : PrefixHash) (blocks : List BlockLocation)
    (createdAt : UInt64) :
    (index.lookupOrInsert key blocks createdAt).Tracks ∧
      (index.lookupOrInsert key blocks createdAt).capacity = index.capacity ∧
      (index.lookupOrInsert key blocks createdAt).lru.keys =
        RecencyCompetition.use index.capacity key index.lru.keys := by
  have present := lookup_isSome_iff tracks key
  unfold lookupOrInsert
  cases found : index.map.lookup key with
  | some entry =>
      have hit : index.lookup key = ({ index with lru := index.lru.touch key }, some entry) := by
        rw [lookup, found]
      have stepped := tracks.step (.lookup key)
      rw [hit] at present
      simp only [step, hit] at stepped
      simp only [hit]
      refine ⟨stepped.1, stepped.2, ?_⟩
      rw [RecencyCompetition.use, if_pos (present.mp rfl), index.lru.keys_touch]
  | none =>
      have miss : index.lookup key = (index, none) := by rw [lookup, found]
      have stepped := tracks.step (.insert key blocks createdAt)
      rw [miss] at present
      have absent : key ∉ index.lru.keys := fun member => by simpa using present.mpr member
      simp only [step] at stepped
      simp only [miss]
      refine ⟨stepped.1, stepped.2, ?_⟩
      obtain ⟨ideal, refines, -, bounded⟩ := tracks
      obtain ⟨-, inserted, -⟩ := insert_refines refines bounded key blocks createdAt
      rw [inserted.order, RecencyCompetition.use, if_neg absent, refines.order, List.length_map,
        RecencyMap.put, if_neg (refines.order ▸ absent), max_eq_right positive]
      split <;> simp

namespace Race

/-- The index of a race shows a recency list of its capacity. -/
structure Sound (capacity : Nat) (race : Race) : Prop where
  tracks : race.index.Tracks
  capacityEq : race.index.capacity = capacity

theorem start_sound (capacity : Nat) : (start capacity).Sound capacity where
  tracks := new_tracks capacity
  capacityEq := rfl

theorem Sound.step {capacity : Nat} {race : Race} (sound : race.Sound capacity)
    (positive : 1 ≤ capacity) (fetch : Fetch) : (race.step fetch).Sound capacity := by
  obtain ⟨tracks, rfl⟩ := sound
  obtain ⟨stillTracks, sameCapacity, -⟩ :=
    lookupOrInsert_spec tracks positive fetch.key fetch.blocks fetch.createdAt
  exact ⟨stillTracks, sameCapacity⟩

theorem Sound.length_keys_le {capacity : Nat} {race : Race} (sound : race.Sound capacity)
    (positive : 1 ≤ capacity) : race.index.lru.keys.length ≤ capacity := by
  obtain ⟨⟨ideal, refines, -, bounded⟩, rfl⟩ := sound
  rw [refines.order, List.length_map]
  rwa [max_eq_right positive] at bounded

def potential (capacity size : Nat) (race : Race) : Nat :=
  RecencyCompetition.potential capacity size race.index.lru.keys race.rival

theorem Sound.pays {capacity size : Nat} {race : Race} (sound : race.Sound capacity)
    (positive : 1 ≤ capacity) (larger : size ≤ capacity) {fetch : Fetch}
    (fair : race.Fair size fetch) :
    (race.step fetch).potential capacity size + (capacity + 1 - size) * race.missed fetch ≤
      race.potential capacity size + capacity * race.rivalMissed fetch := by
  have bounded := sound.length_keys_le positive
  have paid := RecencyCompetition.potential_request_le race.index.lru.keys_nodup bounded larger fair
  obtain ⟨tracks, rfl⟩ := sound
  obtain ⟨-, -, keys⟩ :=
    lookupOrInsert_spec tracks positive fetch.key fetch.blocks fetch.createdAt
  simp only [potential, Race.step, missed, rivalMissed, keys, lookup_isSome_iff tracks]
  exact paid

end Race

end BlockIndex

/-- Against any other cache of at most the same size that serves the same requests, even
one that knows them in advance, the misses of an index of `capacity` entries are at most
`capacity / (capacity + 1 - size)` times those of the other, and one for each place the
empty index has to fill: at most `capacity` times for a rival of equal size, at most twice
for one of half the size. -/
theorem index_misses_le_any_cache {capacity size : Nat} (positive : 1 ≤ size)
    (larger : size ≤ capacity) {fetches : List BlockIndex.Fetch}
    (fair : Allows BlockIndex.Race.step (BlockIndex.Race.Fair size)
      (BlockIndex.Race.start capacity) fetches) :
    (capacity + 1 - size) *
        tally BlockIndex.Race.step BlockIndex.Race.missed (BlockIndex.Race.start capacity) fetches ≤
      capacity * tally BlockIndex.Race.step BlockIndex.Race.rivalMissed
          (BlockIndex.Race.start capacity) fetches +
        (capacity + 1 - size) * capacity := by
  have bound := @potential_run_of_allows _ _ BlockIndex.Race.step
    (fun race fetch => capacity * race.rivalMissed fetch)
    (fun race fetch => (capacity + 1 - size) * race.missed fetch) (BlockIndex.Race.Fair size)
    (BlockIndex.Race.Sound capacity) (BlockIndex.Race.potential capacity size)
    (fun _ fetch _ sound => sound.step (positive.trans larger) fetch)
    (fun _ _ served sound => sound.pays (positive.trans larger) larger served)
    _ (BlockIndex.Race.start_sound capacity) _ fair
  rw [tally_mul, tally_mul] at bound
  have initial : (BlockIndex.Race.start capacity).potential capacity size =
      (capacity + 1 - size) * capacity := by
    simp [BlockIndex.Race.potential, BlockIndex.Race.start, BlockIndex.new,
      RecencyCompetition.potential, RecencyCompetition.lacking]
  omega

/-- An index of two entries that misses six times in a row, against a cache of two that
keeps what is requested soonest and misses four times. -/
theorem index_misses_le_any_cache_of_cycle :
    let fetch (key : UInt8) (kept : List UInt8) : BlockIndex.Fetch :=
      ⟨.ofByte key, [], 0, (kept.map PrefixHash.ofByte).toFinset⟩
    let fetches := [fetch 1 [1], fetch 2 [1, 2], fetch 3 [1, 3], fetch 1 [1, 3], fetch 2 [2, 3],
      fetch 3 [2, 3]]
    (2 + 1 - 2) * tally BlockIndex.Race.step BlockIndex.Race.missed
        (BlockIndex.Race.start 2) fetches ≤
      2 * tally BlockIndex.Race.step BlockIndex.Race.rivalMissed
          (BlockIndex.Race.start 2) fetches + (2 + 1 - 2) * 2 ∧
    tally BlockIndex.Race.step BlockIndex.Race.missed (BlockIndex.Race.start 2) fetches = 6 ∧
    tally BlockIndex.Race.step BlockIndex.Race.rivalMissed (BlockIndex.Race.start 2)
      fetches = 4 := by
  intro fetch fetches
  refine ⟨index_misses_le_any_cache (by decide) (by decide) ?_, ?_, ?_⟩ <;> decide

end CmxRdma.BlockStore
