import Mathlib.Data.Set.Insert

/-!
Contract: two key sets that are meant to agree and that callers update one
after the other, each under its own lock.

Owns: the relation that holds while callers are between their two updates, in
terms of the keys whose second update is still owed, and the condition each
single update needs to keep it.

Does not own: who the callers are or how they are scheduled.
-/

namespace CmxRdma.Lib.OwedUpdates

universe u

variable {Key : Type u}

/-- `mapped` and `tracked` differ only on keys with an owed update. A key is
`touching` when it was mapped and has yet to be tracked, `evicting` when it was
untracked as a victim and has yet to be unmapped, `removing` when it was
unmapped and has yet to be untracked. -/
structure InStep (mapped tracked touching evicting removing : Set Key) : Prop where
  untracked : ∀ key ∈ mapped, key ∉ tracked → key ∈ touching ∨ key ∈ evicting
  ghost : ∀ key ∈ tracked, key ∉ mapped → key ∈ removing
  evictingApart : ∀ key ∈ evicting, key ∉ tracked ∧ key ∉ touching
  touchingMapped : ∀ key ∈ touching, key ∈ mapped
  removingSettled : ∀ key ∈ removing, key ∉ mapped ∨ key ∈ touching

/-- With nothing owed the two sets are equal. -/
theorem InStep.eq_of_settled {mapped tracked : Set Key}
    (inStep : InStep mapped tracked ∅ ∅ ∅) : mapped = tracked := by
  ext key
  constructor
  · intro isMapped
    by_contra notTracked
    rcases inStep.untracked key isMapped notTracked with owed | owed <;> exact owed
  · intro isTracked
    by_contra notMapped
    exact inStep.ghost key isTracked notMapped

variable {mapped tracked touching evicting removing : Set Key} {key : Key}

/-- Mapping a key: its touch becomes owed. No eviction of it may be under way,
or the owed unmapping would take the new entry. -/
theorem InStep.map (inStep : InStep mapped tracked touching evicting removing)
    (notEvicting : key ∉ evicting) :
    InStep (insert key mapped) tracked (insert key touching) evicting removing where
  untracked := by
    rintro other (rfl | isMapped) notTracked
    · exact Or.inl (Set.mem_insert _ _)
    · exact (inStep.untracked other isMapped notTracked).imp_left (Set.mem_insert_of_mem _)
  ghost := fun other isTracked notMapped =>
    inStep.ghost other isTracked fun isMapped => notMapped (Set.mem_insert_of_mem _ isMapped)
  evictingApart := by
    intro other owed
    obtain ⟨notTracked, notTouching⟩ := inStep.evictingApart other owed
    refine ⟨notTracked, ?_⟩
    rintro (rfl | isTouching)
    · exact notEvicting owed
    · exact notTouching isTouching
  touchingMapped := by
    rintro other (rfl | isTouching)
    · exact Set.mem_insert _ _
    · exact Set.mem_insert_of_mem _ (inStep.touchingMapped other isTouching)
  removingSettled := by
    intro other owed
    by_cases same : other = key
    · exact Or.inr (same ▸ Set.mem_insert _ _)
    · simpa [same] using inStep.removingSettled other owed

/-- Paying an owed touch. No removal of the key may be between its updates, or
its owed untracking would undo the touch. -/
theorem InStep.touch (inStep : InStep mapped tracked (insert key touching) evicting removing)
    (notRemoving : key ∉ removing) :
    InStep mapped (insert key tracked) touching evicting removing where
  untracked := by
    intro other isMapped notTracked
    rw [Set.mem_insert_iff, not_or] at notTracked
    simpa [notTracked.1] using inStep.untracked other isMapped notTracked.2
  ghost := by
    rintro other (rfl | isTracked) notMapped
    · exact absurd (inStep.touchingMapped _ (Set.mem_insert _ _)) notMapped
    · exact inStep.ghost other isTracked notMapped
  evictingApart := by
    intro other owed
    obtain ⟨notTracked, notTouching⟩ := inStep.evictingApart other owed
    rw [Set.mem_insert_iff, not_or] at notTouching ⊢
    exact ⟨⟨notTouching.1, notTracked⟩, notTouching.2⟩
  touchingMapped := fun other isTouching =>
    inStep.touchingMapped other (Set.mem_insert_of_mem _ isTouching)
  removingSettled := by
    intro other owed
    have different : other ≠ key := fun same => notRemoving (same ▸ owed)
    simpa [different] using inStep.removingSettled other owed

/-- Touching a mapped key on a read. -/
theorem InStep.hit (inStep : InStep mapped tracked touching evicting removing)
    (isMapped : key ∈ mapped) (notEvicting : key ∉ evicting) :
    InStep mapped (insert key tracked) touching evicting removing where
  untracked := fun other otherMapped notTracked =>
    inStep.untracked other otherMapped fun isTracked =>
      notTracked (Set.mem_insert_of_mem _ isTracked)
  ghost := by
    rintro other (rfl | isTracked) notMapped
    · exact absurd isMapped notMapped
    · exact inStep.ghost other isTracked notMapped
  evictingApart := by
    intro other owed
    obtain ⟨notTracked, notTouching⟩ := inStep.evictingApart other owed
    refine ⟨?_, notTouching⟩
    rintro (rfl | isTracked)
    · exact notEvicting owed
    · exact notTracked isTracked
  touchingMapped := inStep.touchingMapped
  removingSettled := inStep.removingSettled

/-- Taking a victim from the tracked keys: its unmapping becomes owed. -/
theorem InStep.evict (inStep : InStep mapped tracked touching evicting removing)
    (notTouching : key ∉ touching) :
    InStep mapped (tracked \ {key}) touching (insert key evicting) removing where
  untracked := by
    intro other isMapped notTracked
    by_cases same : other = key
    · exact Or.inr (same ▸ Set.mem_insert _ _)
    · exact (inStep.untracked other isMapped fun isTracked =>
        notTracked ⟨isTracked, same⟩).imp_right (Set.mem_insert_of_mem _)
  ghost := fun other isTracked notMapped => inStep.ghost other isTracked.1 notMapped
  evictingApart := by
    rintro other (rfl | owed)
    · exact ⟨fun isTracked => isTracked.2 rfl, notTouching⟩
    · obtain ⟨notTracked, otherNotTouching⟩ := inStep.evictingApart other owed
      exact ⟨fun isTracked => notTracked isTracked.1, otherNotTouching⟩
  touchingMapped := inStep.touchingMapped
  removingSettled := inStep.removingSettled

/-- Paying an owed unmapping; nothing can be in its way. -/
theorem InStep.unmapVictim
    (inStep : InStep mapped tracked touching (insert key evicting) removing) :
    InStep (mapped \ {key}) tracked touching evicting removing where
  untracked := by
    rintro other ⟨isMapped, different⟩ notTracked
    rw [Set.mem_singleton_iff] at different
    simpa [different] using inStep.untracked other isMapped notTracked
  ghost := by
    intro other isTracked notMapped
    have different : other ≠ key := by
      rintro rfl
      exact (inStep.evictingApart other (Set.mem_insert _ _)).1 isTracked
    exact inStep.ghost other isTracked fun isMapped => notMapped ⟨isMapped, different⟩
  evictingApart := fun other owed => inStep.evictingApart other (Set.mem_insert_of_mem _ owed)
  touchingMapped := by
    intro other isTouching
    refine ⟨inStep.touchingMapped other isTouching, ?_⟩
    rintro rfl
    exact (inStep.evictingApart other (Set.mem_insert _ _)).2 isTouching
  removingSettled := fun other owed =>
    (inStep.removingSettled other owed).imp_left fun notMapped isMapped => notMapped isMapped.1

/-- Unmapping a key on request: its untracking becomes owed. -/
theorem InStep.unmap (inStep : InStep mapped tracked touching evicting removing)
    (notTouching : key ∉ touching) :
    InStep (mapped \ {key}) tracked touching evicting (insert key removing) where
  untracked := fun other isMapped notTracked => inStep.untracked other isMapped.1 notTracked
  ghost := by
    intro other isTracked notMapped
    by_cases same : other = key
    · exact same ▸ Set.mem_insert _ _
    · exact Set.mem_insert_of_mem _
        (inStep.ghost other isTracked fun isMapped => notMapped ⟨isMapped, same⟩)
  evictingApart := inStep.evictingApart
  touchingMapped := by
    intro other isTouching
    refine ⟨inStep.touchingMapped other isTouching, ?_⟩
    rintro rfl
    exact notTouching isTouching
  removingSettled := by
    rintro other (rfl | owed)
    · exact Or.inl fun isMapped => isMapped.2 rfl
    · exact (inStep.removingSettled other owed).imp_left fun notMapped isMapped =>
        notMapped isMapped.1

/-- Paying an owed untracking. -/
theorem InStep.untrack (inStep : InStep mapped tracked touching evicting (insert key removing)) :
    InStep mapped (tracked \ {key}) touching evicting removing where
  untracked := by
    intro other isMapped notTracked
    by_cases same : other = key
    · -- the key was mapped again after the removal, so its touch is still owed
      subst same
      exact Or.inl ((inStep.removingSettled other (Set.mem_insert _ _)).resolve_left
        (not_not.mpr isMapped))
    · exact inStep.untracked other isMapped fun isTracked => notTracked ⟨isTracked, same⟩
  ghost := by
    rintro other ⟨isTracked, different⟩ notMapped
    exact (inStep.ghost other isTracked notMapped).resolve_left different
  evictingApart := by
    intro other owed
    obtain ⟨notTracked, notTouching⟩ := inStep.evictingApart other owed
    exact ⟨fun isTracked => notTracked isTracked.1, notTouching⟩
  touchingMapped := inStep.touchingMapped
  removingSettled := fun other owed =>
    inStep.removingSettled other (Set.mem_insert_of_mem _ owed)

end CmxRdma.Lib.OwedUpdates
