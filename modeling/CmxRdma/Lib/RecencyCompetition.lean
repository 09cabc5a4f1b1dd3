import Mathlib.Data.Finset.Card

/-!
Contract: a recency list against any other way to run a cache on the same requests.

Owns: one request served by a bounded list in recency order, what any other cache may
do with it, and the potential from which the misses of the list are paid by the misses
of the other cache.

Does not own: any implementation, and how the other cache decides.
-/

namespace CmxRdma.Lib.RecencyCompetition

universe u

variable {Key : Type u} [DecidableEq Key]

/-! ## One request -/

/-- The keys after a request: the requested one in front, and the last one gone if it is
new and the list was full. -/
def use (capacity : Nat) (key : Key) (recent : List Key) : List Key :=
  if key ∈ recent then key :: recent.erase key
  else if recent.length < capacity then key :: recent
  else key :: recent.dropLast

/-- What a cache of `size` keys may hold after a request: the requested key, and of the
others only what it held before. -/
structure Serves (size : Nat) (before : Finset Key) (key : Key) (after : Finset Key) : Prop where
  requested : key ∈ after
  kept : after ⊆ insert key before
  small : after.card ≤ size

instance (size : Nat) (before : Finset Key) (key : Key) (after : Finset Key) :
    Decidable (Serves size before key after) :=
  decidable_of_iff (key ∈ after ∧ after ⊆ insert key before ∧ after.card ≤ size)
    ⟨fun served => ⟨served.1, served.2.1, served.2.2⟩,
      fun served => ⟨served.requested, served.kept, served.small⟩⟩

/-! ## Ranks -/

/-- The sum of the ranks of the keys `held` lacks: the first of the list counts `rank`,
each later one less than the one before. -/
def lacking (held : Finset Key) : Nat → List Key → Nat
  | _, [] => 0
  | rank, key :: rest => (if key ∈ held then 0 else rank) + lacking held (rank - 1) rest

theorem lacking_mono (held : Finset Key) {rank rank' : Nat} (le : rank ≤ rank')
    (recent : List Key) : lacking held rank recent ≤ lacking held rank' recent := by
  induction recent generalizing rank rank' with
  | nil => exact Nat.le_refl _
  | cons key rest inductionHypothesis =>
      have others := inductionHypothesis (Nat.sub_le_sub_right le 1)
      simp only [lacking]
      split <;> omega

/-- A cache that gives up keys adds at most the highest rank for each. -/
theorem lacking_le_of_dropped (before after : Finset Key) (rank : Nat) (recent : List Key) :
    lacking after rank recent ≤
      lacking before rank recent + rank * recent.countP (· ∈ before \ after) := by
  induction recent generalizing rank with
  | nil => exact Nat.le_refl _
  | cons key rest inductionHypothesis =>
      have others := inductionHypothesis (rank - 1)
      have lower : (rank - 1) * rest.countP (· ∈ before \ after) ≤
          rank * rest.countP (· ∈ before \ after) :=
        Nat.mul_le_mul_right _ (Nat.sub_le rank 1)
      by_cases dropped : key ∈ before \ after
      · rw [lacking, lacking, List.countP_cons_of_pos (by simpa using dropped), Nat.mul_succ]
        split <;> split <;> omega
      · have noMore : (if key ∈ after then 0 else rank) ≤ if key ∈ before then 0 else rank := by
          simp only [Finset.mem_sdiff, not_and_not_right] at dropped
          split <;> split <;> simp_all
        rw [lacking, lacking, List.countP_cons_of_neg (by simpa using dropped)]
        omega

/-- A present key moves to the front; the keys that were in front of it each lose a rank. -/
theorem lacking_erase_le {held : Finset Key} {key : Key} (isHeld : key ∈ held) (rank : Nat)
    {recent : List Key} (present : key ∈ recent) :
    lacking held (rank - 1) (recent.erase key) ≤ lacking held rank recent := by
  induction recent generalizing rank with
  | nil => cases present
  | cons first rest inductionHypothesis =>
      by_cases same : first = key
      · subst same
        rw [List.erase_cons_head, lacking, if_pos isHeld, Nat.zero_add]
      · have inRest := (List.mem_cons.mp present).resolve_left (Ne.symm same)
        have others := inductionHypothesis (rank - 1) inRest
        rw [List.erase_cons_tail (by simpa using same), lacking, lacking]
        split <;> omega

/-- When the last key leaves and all others move back, every key that `held` lacks loses
a rank. -/
theorem lacking_dropLast_add_le (held : Finset Key) {rank : Nat} {recent : List Key}
    (fits : recent.length ≤ rank) :
    lacking held (rank - 1) recent.dropLast + recent.countP (· ∉ held) ≤
      lacking held rank recent := by
  induction recent generalizing rank with
  | nil => exact Nat.le_refl _
  | cons key rest inductionHypothesis =>
      rw [List.length_cons] at fits
      cases rest with
      | nil =>
          simp only [List.dropLast_singleton, lacking, List.countP_cons, List.countP_nil,
            decide_eq_true_eq]
          split <;> simp_all
      | cons second others =>
          have later := @inductionHypothesis (rank - 1) (by omega)
          rw [List.dropLast_cons_cons, lacking, lacking, List.countP_cons]
          simp only [decide_eq_true_eq]
          by_cases isHeld : key ∈ held
          · simp only [isHeld, if_true, not_true_eq_false, if_false]
            omega
          · simp only [isHeld, if_false, not_false_eq_true, if_true]
            omega

/-! ## The potential -/

/-- Ranks of the keys the other cache lacks, the highest rank for every key it holds, and
what each free place of the list will cost when it is filled. -/
def potential (capacity size : Nat) (recent : List Key) (held : Finset Key) : Nat :=
  lacking held capacity recent + capacity * held.card +
    (capacity + 1 - size) * (capacity - recent.length)

/-- Keys of a list without repetition that lie in a set are no more than the set has. -/
theorem countP_mem_le_card {recent : List Key} (nodup : recent.Nodup) (keys : Finset Key) :
    recent.countP (· ∈ keys) ≤ keys.card := by
  rw [List.countP_eq_length_filter, ← List.toFinset_card_of_nodup (nodup.filter _)]
  apply Finset.card_le_card
  intro key member
  simpa using (List.mem_filter.mp (List.mem_toFinset.mp member)).2

variable {capacity size : Nat} {recent : List Key} {before after : Finset Key} {key : Key}

/-- What the other cache does with a request is paid by its misses. -/
theorem potential_serve_le (nodup : recent.Nodup) (served : Serves size before key after) :
    potential capacity size recent after ≤
      potential capacity size recent before + capacity * (if key ∈ before then 0 else 1) := by
  have ranks := lacking_le_of_dropped before after capacity recent
  have dropped := countP_mem_le_card nodup (before \ after)
  have sizes : after.card + (before \ after).card ≤
      before.card + if key ∈ before then 0 else 1 := by
    have covered : after ∪ before ⊆ insert key before :=
      Finset.union_subset served.kept (Finset.subset_insert key before)
    have union := Finset.card_le_card covered
    rw [← Finset.union_sdiff_self_eq_union, Finset.card_union_of_disjoint Finset.disjoint_sdiff]
      at union
    split
    · rename_i held
      rwa [Finset.insert_eq_of_mem held] at union
    · exact union.trans (Finset.card_insert_le key before)
  have scaled := Nat.mul_le_mul_left capacity sizes
  have scaledDropped := Nat.mul_le_mul_left capacity dropped
  rw [Nat.mul_add, Nat.mul_add] at scaled
  rw [potential, potential]
  omega

/-- What the list does with a request the other cache has just served is paid by the
potential. -/
theorem potential_use_le (nodup : recent.Nodup) (bounded : recent.length ≤ capacity)
    (requested : key ∈ after) (small : after.card ≤ size) (larger : size ≤ capacity) :
    potential capacity size (use capacity key recent) after +
        (capacity + 1 - size) * (if key ∈ recent then 0 else 1) ≤
      potential capacity size recent after := by
  have fewer (keys : List Key) := lacking_mono after (Nat.sub_le capacity 1) keys
  rw [potential, potential, use]
  by_cases present : key ∈ recent
  · have moved := lacking_erase_le requested capacity present
    have sameLength : (key :: recent.erase key).length = recent.length := by
      have positive := List.length_pos_of_mem present
      rw [List.length_cons, List.length_erase_of_mem present]
      omega
    rw [if_pos present, if_pos present, sameLength, lacking, if_pos requested]
    omega
  · by_cases room : recent.length < capacity
    · have less := fewer recent
      have freed : capacity - recent.length = capacity - (recent.length + 1) + 1 := by omega
      rw [if_neg present, if_neg present, if_pos room, lacking, if_pos requested,
        List.length_cons, freed, Nat.mul_succ (capacity + 1 - size) (capacity - _)]
      omega
    · have full : recent.length = capacity := by omega
      have positive : 0 < size := (Finset.card_pos.mpr ⟨key, requested⟩).trans_le small
      have sameLength : (key :: recent.dropLast).length = recent.length := by
        rw [List.length_cons, List.length_dropLast]
        omega
      -- the other cache has a place for the requested key, which the list lacks
      have shared : recent.countP (· ∈ after) ≤ after.card - 1 := by
        rw [← Finset.card_erase_of_mem requested]
        apply (List.countP_mono_left _).trans (countP_mem_le_card nodup (after.erase key))
        intro other member held
        have different : other ≠ key := fun same => present (same ▸ member)
        simpa [different] using held
      have lost := lacking_dropLast_add_le after (Nat.le_of_eq full)
      have both := List.length_eq_countP_add_countP (· ∈ after) (l := recent)
      rw [if_neg present, if_neg present, if_neg room, sameLength, lacking, if_pos requested]
      simp only [decide_eq_true_eq] at both
      omega

/-- One request: the misses of the list, each at the price of the places by which it is
larger, are paid by the misses of the other cache at the price of the whole list. -/
theorem potential_request_le (nodup : recent.Nodup) (bounded : recent.length ≤ capacity)
    (larger : size ≤ capacity) (served : Serves size before key after) :
    potential capacity size (use capacity key recent) after +
        (capacity + 1 - size) * (if key ∈ recent then 0 else 1) ≤
      potential capacity size recent before + capacity * (if key ∈ before then 0 else 1) :=
  (potential_use_le nodup bounded served.requested served.small larger).trans
    (potential_serve_le nodup served)

end CmxRdma.Lib.RecencyCompetition
