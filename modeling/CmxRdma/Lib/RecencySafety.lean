import Mathlib.Data.Finset.Card
import CmxRdma.Lib.RecencyMap

/-!
Contract: how far an entry of a bounded LRU map is from eviction.

Owns: the predicate that only given rivals stand in front of a key, and its
preservation by erasing, moving to the front and inserting other keys as long
as the rivals are fewer than the capacity.

Does not own: any implementation.
-/

namespace CmxRdma.Lib.RecencyMap

universe u v

variable {Key : Type u} {Value : Type v} [DecidableEq Key]

theorem erase_append (key : Key) (first second : List (Key × Value)) :
    erase key (first ++ second) = erase key first ++ erase key second := by
  rw [erase_eq_filter, erase_eq_filter, erase_eq_filter, List.filter_append]

/-- The key is present and only rivals stand in front of it. -/
def OnlyBehind (rivals : Finset Key) (key : Key) (entries : List (Key × Value)) : Prop :=
  ∃ front value back, entries = front ++ (key, value) :: back ∧ ∀ entry ∈ front, entry.1 ∈ rivals

section Steps

variable {rivals : Finset Key} {key : Key} {entries : List (Key × Value)}

omit [DecidableEq Key] in
theorem onlyBehind_front (rivals : Finset Key) (key : Key) (value : Value)
    (entries : List (Key × Value)) : OnlyBehind rivals key ((key, value) :: entries) :=
  ⟨[], value, entries, rfl, by simp⟩

omit [DecidableEq Key] in
theorem OnlyBehind.mem (behind : OnlyBehind rivals key entries) :
    key ∈ entries.map Prod.fst := by
  obtain ⟨front, value, back, rfl, -⟩ := behind
  simp

omit [DecidableEq Key] in
theorem OnlyBehind.cons (behind : OnlyBehind rivals key entries) {entry : Key × Value}
    (rival : entry.1 ∈ rivals) : OnlyBehind rivals key (entry :: entries) := by
  obtain ⟨front, value, back, rfl, ahead⟩ := behind
  refine ⟨entry :: front, value, back, rfl, ?_⟩
  intro other member
  rcases List.mem_cons.mp member with rfl | old
  · exact rival
  · exact ahead other old

theorem OnlyBehind.erase (behind : OnlyBehind rivals key entries) {other : Key}
    (different : other ≠ key) : OnlyBehind rivals key (RecencyMap.erase other entries) := by
  obtain ⟨front, value, back, rfl, ahead⟩ := behind
  refine ⟨RecencyMap.erase other front, value, RecencyMap.erase other back, ?_, ?_⟩
  · rw [erase_append, RecencyMap.erase, if_neg different.symm]
  · intro entry member
    exact ahead entry (mem_of_mem_erase member)

/-- Losing the last entry does not reach a key with fewer entries in front of it
than the list holds besides. -/
theorem OnlyBehind.dropLast (behind : OnlyBehind rivals key entries)
    (nodup : (entries.map Prod.fst).Nodup) {other : Key} (absent : other ∉ entries.map Prod.fst)
    (rival : other ∈ rivals) (full : rivals.card < entries.length) :
    OnlyBehind rivals key entries.dropLast := by
  obtain ⟨front, value, back, rfl, ahead⟩ := behind
  rcases List.eq_nil_or_concat back with rfl | ⟨kept, last, rfl⟩
  · -- the key is last: the rivals would be everything in front of it and the newcomer
    simp only [List.map_append, List.nodup_append, List.mem_append, not_or] at nodup absent
    have distinct : (other :: front.map Prod.fst).Nodup :=
      List.nodup_cons.mpr ⟨absent.1, nodup.1⟩
    have within : (other :: front.map Prod.fst).toFinset ⊆ rivals := by
      intro found member
      simp only [List.mem_toFinset, List.mem_cons, List.mem_map] at member
      rcases member with rfl | ⟨entry, inFront, rfl⟩
      · exact rival
      · exact ahead entry inFront
    have bound := Finset.card_le_card within
    rw [List.toFinset_card_of_nodup distinct] at bound
    simp only [List.length_cons, List.length_map, List.length_append, List.length_nil]
      at bound full
    omega
  · refine ⟨front, value, kept, ?_, ahead⟩
    rw [List.concat_eq_append, ← List.cons_append, ← List.append_assoc, List.dropLast_concat]

theorem OnlyBehind.bring (behind : OnlyBehind rivals key entries) {other : Key}
    (rival : other ∈ entries.map Prod.fst → other ≠ key → other ∈ rivals) :
    OnlyBehind rivals key (RecencyMap.bring other entries) := by
  unfold RecencyMap.bring
  cases found : RecencyMap.find other entries with
  | none => exact behind
  | some value =>
      by_cases same : other = key
      · rw [same]
        exact onlyBehind_front rivals key value _
      · have present : other ∈ entries.map Prod.fst :=
          List.mem_map_of_mem (mem_of_find_eq_some found)
        exact (behind.erase same).cons (rival present same)

theorem OnlyBehind.put (behind : OnlyBehind rivals key entries)
    (nodup : (entries.map Prod.fst).Nodup) {capacity : Nat} (few : rivals.card < capacity)
    {other : Key} (rival : other ≠ key → other ∈ rivals) (value : Value) :
    OnlyBehind rivals key (RecencyMap.put capacity other value entries).2 := by
  unfold RecencyMap.put
  by_cases same : other = key
  · rw [same, if_pos behind.mem]
    exact onlyBehind_front rivals key value _
  · by_cases present : other ∈ entries.map Prod.fst
    · rw [if_pos present]
      exact (behind.erase same).cons (rival same)
    · rw [if_neg present]
      by_cases room : entries.length < capacity
      · rw [if_pos room]
        exact behind.cons (rival same)
      · rw [if_neg room]
        have full : rivals.card < entries.length := Nat.lt_of_lt_of_le few (Nat.not_lt.mp room)
        exact (behind.dropLast nodup present (rival same) full).cons (rival same)

end Steps

end CmxRdma.Lib.RecencyMap
