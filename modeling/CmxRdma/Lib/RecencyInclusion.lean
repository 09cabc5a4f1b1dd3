import CmxRdma.Lib.RecencyMap

/-!
Contract: one history on two bounded LRU maps, the second with more room.

Owns: the inclusion relation between a small and a large recency list, and that
lookups, insertions and removals applied to both keep it.

Does not own: any implementation.
-/

namespace CmxRdma.Lib.RecencyMap

universe u v

variable {Key : Type u} {Value : Type v} [DecidableEq Key]

/-! ## Sublists -/

theorem erase_sublist_erase {small large : List (Key × Value)} (sublist : small.Sublist large)
    (key : Key) : (erase key small).Sublist (erase key large) := by
  rw [erase_eq_filter, erase_eq_filter]
  exact sublist.filter _

omit [DecidableEq Key] in
theorem dropLast_sublist_dropLast {small large : List (Key × Value)}
    (sublist : small.Sublist large) : small.dropLast.Sublist large.dropLast := by
  rw [← List.reverse_sublist, ← List.tail_reverse, ← List.tail_reverse]
  exact (List.reverse_sublist.mpr sublist).tail

/-! ## Inclusion -/

/-- The small list is the large one with at most `spare` entries left out. The
order of the shared entries is the same in both, and the number of entries left
out is what the difference of the capacities allows: a full large map then meets
a full small one. -/
structure Included (capacity spare : Nat) (small large : List (Key × Value)) : Prop where
  sublist : small.Sublist large
  nodup : (large.map Prod.fst).Nodup
  smallBounded : small.length ≤ capacity
  largeBounded : large.length ≤ capacity + spare
  extra : large.length ≤ small.length + spare

section Steps

variable {capacity spare : Nat} {small large : List (Key × Value)}

omit [DecidableEq Key] in
theorem nil_included (capacity spare : Nat) :
    Included capacity spare ([] : List (Key × Value)) [] :=
  ⟨List.Sublist.refl [], List.nodup_nil, Nat.zero_le _, Nat.zero_le _, Nat.zero_le _⟩

omit [DecidableEq Key] in
theorem Included.smallNodup (included : Included capacity spare small large) :
    (small.map Prod.fst).Nodup :=
  included.nodup.sublist (included.sublist.map Prod.fst)

omit [DecidableEq Key] in
theorem Included.mem_keys (included : Included capacity spare small large) {key : Key}
    (present : key ∈ small.map Prod.fst) : key ∈ large.map Prod.fst :=
  (included.sublist.map Prod.fst).subset present

/-- What the small map holds, the large one holds. -/
theorem Included.find (included : Included capacity spare small large) {key : Key} {value : Value}
    (found : find key small = some value) : find key large = some value :=
  find_eq_some_of_mem included.nodup (included.sublist.subset (mem_of_find_eq_some found))

/-- A key the small map lacks can leave or move in the large one. -/
theorem Included.sublist_erase (included : Included capacity spare small large) {key : Key}
    (absent : key ∉ small.map Prod.fst) : small.Sublist (RecencyMap.erase key large) := by
  have shrunk := erase_sublist_erase included.sublist key
  rwa [erase_of_notMem absent] at shrunk

theorem Included.erase (included : Included capacity spare small large) (key : Key) :
    Included capacity spare (RecencyMap.erase key small) (RecencyMap.erase key large) := by
  have fewerSmall := length_erase_le key small
  have fewerLarge := length_erase_le key large
  have largeBounded := included.largeBounded
  have smallBounded := included.smallBounded
  have extra := included.extra
  refine ⟨erase_sublist_erase included.sublist key, keys_erase_nodup included.nodup, by omega,
    by omega, ?_⟩
  by_cases present : key ∈ small.map Prod.fst
  · rw [length_erase_of_mem included.smallNodup present,
      length_erase_of_mem included.nodup (included.mem_keys present)]
    have nonempty : 0 < small.length := by simpa using List.length_pos_of_mem present
    omega
  · rw [erase_of_notMem present]
    omega

theorem Included.bring (included : Included capacity spare small large) (key : Key) :
    Included capacity spare (RecencyMap.bring key small) (RecencyMap.bring key large) := by
  have largeBounded := Nat.le_trans (length_bring_le key large) included.largeBounded
  have smallBounded := Nat.le_trans (length_bring_le key small) included.smallBounded
  refine ⟨?_, keys_bring_nodup included.nodup, smallBounded, largeBounded, ?_⟩
  · unfold RecencyMap.bring
    cases foundSmall : RecencyMap.find key small with
    | some value =>
        rw [included.find foundSmall]
        exact (erase_sublist_erase included.sublist key).cons_cons _
    | none =>
        cases RecencyMap.find key large with
        | none => exact included.sublist
        | some value => exact (included.sublist_erase (find_eq_none_iff.mp foundSmall)).cons _
  · rw [length_bring included.nodup, length_bring included.smallNodup]
    exact included.extra

/-- A full large map holds so many keys more than the small one that the small
one is full too, so both lose their least recent entry or only the small one
does. -/
theorem Included.put (included : Included capacity spare small large) (positive : 1 ≤ capacity)
    (key : Key) (value : Value) :
    Included capacity spare (RecencyMap.put capacity key value small).2
      (RecencyMap.put (capacity + spare) key value large).2 := by
  have largePositive : 1 ≤ capacity + spare := Nat.le_trans positive (Nat.le_add_right _ _)
  have smallBounded := included.smallBounded
  have largeBounded := included.largeBounded
  have extra := included.extra
  refine ⟨?_, keys_put_nodup included.nodup, length_put_le positive smallBounded,
    length_put_le largePositive largeBounded, ?_⟩
  · unfold RecencyMap.put
    by_cases inSmall : key ∈ small.map Prod.fst
    · rw [if_pos inSmall, if_pos (included.mem_keys inSmall)]
      exact (erase_sublist_erase included.sublist key).cons_cons _
    · rw [if_neg inSmall]
      -- the small map keeps its entries or all but the last
      have keptSmall : (if small.length < capacity then ([], (key, value) :: small)
          else ((small.map Prod.fst).getLast?.toList, (key, value) :: small.dropLast)).2.Sublist
            ((key, value) :: small) := by
        split
        · exact List.Sublist.refl _
        · exact (List.dropLast_sublist small).cons_cons _
      by_cases inLarge : key ∈ large.map Prod.fst
      · rw [if_pos inLarge]
        exact keptSmall.trans ((included.sublist_erase inSmall).cons_cons _)
      · rw [if_neg inLarge]
        by_cases room : large.length < capacity + spare
        · rw [if_pos room]
          exact keptSmall.trans (included.sublist.cons_cons _)
        · have smallFull : ¬ small.length < capacity := by omega
          rw [if_neg room, if_neg smallFull]
          exact (dropLast_sublist_dropLast included.sublist).cons_cons _
  · rw [length_put largePositive included.nodup, length_put positive included.smallNodup]
    have shared : key ∈ small.map Prod.fst → key ∈ large.map Prod.fst := included.mem_keys
    split <;> split
    · exact extra
    · omega
    · rename_i notInLarge inSmallOrFull
      rw [not_or] at notInLarge
      rcases inSmallOrFull with inSmall | full
      · exact absurd (shared inSmall) notInLarge.1
      · omega
    · omega

end Steps

end CmxRdma.Lib.RecencyMap
