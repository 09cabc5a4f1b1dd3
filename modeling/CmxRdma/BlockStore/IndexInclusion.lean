import CmxRdma.BlockStore.IndexRefinement
import CmxRdma.Lib.RecencyInclusion

/-!
Contract: one call sequence on two block indices of different capacities.

Owns: the inclusion of the smaller index in the larger one after every call, and
that a lookup that hits in the smaller one hits in the larger one.

Does not own: calls whose steps interleave; see `IndexConcurrency`.
-/

namespace CmxRdma.BlockStore.BlockIndex

open CmxRdma.Lib
open CmxRdma.Lib.RecencyMap
open CmxRdma.Lib.Transition

/-- A call on both ideal maps keeps the small one inside the large one. -/
theorem idealStep_included {capacity spare : Nat} (positive : 1 ≤ capacity)
    {small large : List (PrefixHash × IndexEntry)} (included : Included capacity spare small large)
    (call : Call) :
    Included capacity spare (idealStep capacity small call).1
      (idealStep (capacity + spare) large call).1 := by
  cases call with
  | lookup key => exact included.bring key
  | insert key blocks createdAt => exact included.put positive key _
  | remove key => exact included.erase key
  | contains key => exact included

theorem idealRun_included {capacity spare : Nat} (positive : 1 ≤ capacity) (calls : List Call) :
    Included capacity spare (run (next (idealStep capacity)) [] calls)
      (run (next (idealStep (capacity + spare))) [] calls) :=
  @run_related _ _ _ (next (idealStep capacity)) (next (idealStep (capacity + spare)))
    (Included capacity spare) calls
    (fun _ _ call _ included => idealStep_included positive included call) [] []
    (nil_included capacity spare)

theorem lookup_run_included {capacity larger : Nat} (positive : 1 ≤ capacity)
    (ordered : capacity ≤ larger) (calls : List Call) (key : PrefixHash) (entry : IndexEntry)
    (found : (run (next step) (BlockIndex.new capacity) calls).map.lookup key = some entry) :
    (run (next step) (BlockIndex.new larger) calls).map.lookup key = some entry := by
  obtain ⟨spare, rfl⟩ := Nat.exists_eq_add_of_le ordered
  have smallShows := (outputs_simulate capacity calls).2.refines
  have largeShows := (outputs_simulate (capacity + spare) calls).2.refines
  rw [max_eq_right positive] at smallShows
  rw [max_eq_right (Nat.le_trans positive ordered)] at largeShows
  rw [smallShows.find] at found
  rw [largeShows.find]
  exact (idealRun_included positive calls).find found

/-- No Belady anomaly: along every sequence of whole calls each key of the smaller
index is in the larger one with the same entry, and every lookup that hits in the
smaller one hits in the larger one. -/
theorem smaller_index_included {capacity larger : Nat} (positive : 1 ≤ capacity)
    (ordered : capacity ≤ larger) (calls : List Call) :
    (∀ before after, calls = before ++ after → ∀ key entry,
        (run (next step) (BlockIndex.new capacity) before).map.lookup key = some entry →
          (run (next step) (BlockIndex.new larger) before).map.lookup key = some entry) ∧
      ∀ (position : Nat) (key : PrefixHash) (entry : IndexEntry),
        calls[position]? = some (.lookup key) →
        (outputs step (BlockIndex.new capacity) calls)[position]? = some (.entry (some entry)) →
          (outputs step (BlockIndex.new larger) calls)[position]? =
            some (.entry (some entry)) := by
  constructor
  · intro before _ _ key entry found
    exact lookup_run_included positive ordered before key entry found
  · intro position key entry called hit
    rw [outputs_getElem?, called] at hit ⊢
    simp only [Option.map_some, Option.some.injEq, step, Result.entry.injEq, lookup_snd] at hit ⊢
    exact lookup_run_included positive ordered _ key entry hit

/-- A lookup that misses in the index of one entry reorders the index of two; the
later hit of the former is a hit of the latter. -/
theorem smaller_index_included_one_two :
    let calls : List Call := [.insert (.ofByte 1) [] 0, .insert (.ofByte 2) [] 0,
      .lookup (.ofByte 1), .insert (.ofByte 3) [] 0, .lookup (.ofByte 3)]
    (outputs step (BlockIndex.new 1) calls)[2]? = some (.entry none) ∧
      (outputs step (BlockIndex.new 2) calls)[4]? = some (.entry (some ⟨[], 0⟩)) := by
  intro calls
  have smallMisses : (outputs step (BlockIndex.new 1) calls)[2]? = some (.entry none) := by
    decide +kernel
  have smallHits : (outputs step (BlockIndex.new 1) calls)[4]? = some (.entry (some ⟨[], 0⟩)) := by
    decide +kernel
  exact ⟨smallMisses,
    (smaller_index_included (by decide) (by decide) calls).2 4 (.ofByte 3) ⟨[], 0⟩ rfl smallHits⟩

end CmxRdma.BlockStore.BlockIndex
