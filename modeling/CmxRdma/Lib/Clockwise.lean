import Mathlib.Data.List.Induction
import Mathlib.Data.List.Pairwise
import Mathlib.Data.List.TakeWhile
import CmxRdma.Lib.SortedMap

/-!
Contract: the entries of an ordered map met on a walk around it.

Owns: the clockwise order of the keys from a start, a map's entries in that
order, and the first occurrences of a list: they have no duplicates, commute
with filtering, and inherit the order of the list they are taken from.

Does not own: what keys and values stand for, and any distance.
-/

namespace CmxRdma.Lib

universe u v

/-! ## First occurrences -/

section FirstOccurrences

variable {α : Type u} {β : Type v} [DecidableEq α]

/-- One more element occurs first if it is not there yet. -/
theorem eraseDups_concat (values : List α) (value : α) :
    (values ++ [value]).eraseDups =
      values.eraseDups ++ if value ∈ values then [] else [value] := by
  rw [List.eraseDups_append]
  by_cases present : value ∈ values
  · simp [List.removeAll, present]
  · simp [List.removeAll, present, List.eraseDups_cons]

theorem nodup_eraseDups (values : List α) : values.eraseDups.Nodup := by
  induction values using List.reverseRecOn with
  | nil => simp
  | append_singleton values value inductionHypothesis =>
      rw [eraseDups_concat]
      split_ifs with present
      · simpa using inductionHypothesis
      · exact inductionHypothesis.append (List.nodup_singleton value) (by simpa using present)

theorem eraseDups_filter (keep : α → Bool) (values : List α) :
    (values.filter keep).eraseDups = values.eraseDups.filter keep := by
  induction values using List.reverseRecOn with
  | nil => simp
  | append_singleton values value inductionHypothesis =>
      rw [List.filter_append, eraseDups_concat, List.filter_append, ← inductionHypothesis]
      by_cases kept : keep value = true
      · rw [List.filter_singleton, kept, cond_true, eraseDups_concat]
        by_cases present : value ∈ values
        · simp [present, kept]
        · simp [present, kept]
      · by_cases present : value ∈ values
        · simp [present, kept]
        · simp [present, kept]

/-- What only repeats earlier elements adds nothing. -/
theorem eraseDups_append_of_subset {front rest : List α} (repeats : rest ⊆ front) :
    (front ++ rest).eraseDups = front.eraseDups := by
  have nothing : rest.removeAll front = [] := by
    simp only [List.removeAll, List.filter_eq_nil_iff]
    intro value member
    simpa using repeats member
  rw [List.eraseDups_append, nothing]
  simp

omit [DecidableEq α] in
/-- What is taken from an ordered list comes before what is left. -/
theorem rel_of_mem_take {order : α → α → Prop} {values : List α} (ordered : values.Pairwise order)
    {count : Nat} {taken left : α} (isTaken : taken ∈ values.take count) (member : left ∈ values)
    (isLeft : left ∉ values.take count) : order taken left := by
  rw [← List.take_append_drop count values] at ordered member
  exact (List.pairwise_append.mp ordered).2.2 taken isTaken left
    ((List.mem_append.mp member).resolve_left isLeft)

/-- In an ordered list, a value that occurs first before another one does has an
element ahead of all elements of the other. -/
theorem pairwise_eraseDups_map {order : β → β → Prop} {label : β → α} {elements : List β}
    (ordered : elements.Pairwise order) :
    (elements.map label).eraseDups.Pairwise fun left right =>
      ∃ element ∈ elements, label element = left ∧
        ∀ other ∈ elements, label other = right → order element other := by
  induction elements using List.reverseRecOn with
  | nil => simp
  | append_singleton elements last inductionHypothesis =>
      obtain ⟨frontOrdered, -, beforeLast⟩ := List.pairwise_append.mp ordered
      replace beforeLast : ∀ element ∈ elements, order element last :=
        fun element member => beforeLast element member last List.mem_cons_self
      rw [List.map_append, List.map_singleton, eraseDups_concat]
      have front : (elements.map label).eraseDups.Pairwise fun left right =>
          ∃ element ∈ elements ++ [last], label element = left ∧
            ∀ other ∈ elements ++ [last], label other = right → order element other := by
        refine (inductionHypothesis frontOrdered).imp ?_
        rintro left right ⟨element, member, labelled, ahead⟩
        refine ⟨element, List.mem_append_left _ member, labelled, ?_⟩
        intro other otherMember otherLabelled
        rcases List.mem_append.mp otherMember with inFront | isLast
        · exact ahead other inFront otherLabelled
        · rw [List.mem_singleton.mp isLast]
          exact beforeLast element member
      split_ifs with present
      · rwa [List.append_nil]
      · refine List.pairwise_append.mpr ⟨front, List.pairwise_singleton _ _, ?_⟩
        intro left leftMember right rightMember
        obtain rfl := List.mem_singleton.mp rightMember
        obtain ⟨element, member, labelled⟩ := List.mem_map.mp (List.mem_eraseDups.mp leftMember)
        refine ⟨element, List.mem_append_left _ member, labelled, ?_⟩
        intro other otherMember sameLabel
        rcases List.mem_append.mp otherMember with inFront | isLast
        · exact absurd (List.mem_map.mpr ⟨other, inFront, sameLabel⟩) present
        · rw [List.mem_singleton.mp isLast]
          exact beforeLast element member

end FirstOccurrences

/-! ## The order from a start -/

/-- Going up from `start` and wrapping around at the top, `left` is met before
`right`. -/
def ClockwiseBefore {Key : Type u} [LinearOrder Key] (start left right : Key) : Prop :=
  start ≤ left ∧ right < start ∨ (start ≤ left ↔ start ≤ right) ∧ left < right

theorem ClockwiseBefore.asymm {Key : Type u} [LinearOrder Key] {start left right : Key}
    (before : ClockwiseBefore start left right) : ¬ ClockwiseBefore start right left := by
  rintro (⟨startRight, leftStart⟩ | ⟨sameSide, after⟩)
  · rcases before with ⟨startLeft, -⟩ | ⟨sameSide, -⟩
    · exact absurd startLeft (not_le.mpr leftStart)
    · exact absurd (sameSide.mpr startRight) (not_le.mpr leftStart)
  · rcases before with ⟨startLeft, rightStart⟩ | ⟨-, ahead⟩
    · exact absurd (sameSide.mpr startLeft) (not_le.mpr rightStart)
    · exact lt_asymm ahead after

/-- The order is total. -/
theorem eq_of_not_clockwiseBefore {Key : Type u} [LinearOrder Key] {start left right : Key}
    (notBefore : ¬ ClockwiseBefore start left right)
    (notAfter : ¬ ClockwiseBefore start right left) : left = right := by
  simp only [ClockwiseBefore, not_or, not_and, not_lt] at notBefore notAfter
  have sameSide : start ≤ left ↔ start ≤ right := ⟨notBefore.1, notAfter.1⟩
  exact le_antisymm (notAfter.2 sameSide.symm) (notBefore.2 sameSide)

namespace SortedMap

variable {Key : Type u} {Value : Type v} [LinearOrder Key]

/-- A key has one value. -/
theorem value_eq_of_mem {map : SortedMap Key Value} {left right : Key × Value}
    (leftMember : left ∈ map) (rightMember : right ∈ map) (sameKey : left.1 = right.1) :
    left = right := by
  by_contra different
  have apart : map.entries.Pairwise fun left right => left.1 ≠ right.1 :=
    map.sorted.imp fun ascending => ascending.ne
  have : Std.Symm fun left right : Key × Value => left.1 ≠ right.1 := ⟨fun _ _ => Ne.symm⟩
  exact apart.forall leftMember rightMember different sameKey

theorem range_eq_filter (map : SortedMap Key Value) (start : Key) :
    map.range start = map.entries.filter fun entry => start ≤ entry.1 := by
  obtain ⟨entries, sorted⟩ := map
  unfold range
  induction entries with
  | nil => rfl
  | cons first rest inductionHypothesis =>
      obtain ⟨firstLeast, restSorted⟩ := List.pairwise_cons.mp sorted
      by_cases below : first.1 < start
      · rw [List.dropWhile_cons_of_pos (by simpa using below),
          List.filter_cons_of_neg (by simpa using below)]
        exact inductionHypothesis restSorted
      · have reached : ∀ entry ∈ first :: rest, start ≤ entry.1 := by
          intro entry member
          rcases List.mem_cons.mp member with rfl | later
          · exact not_lt.mp below
          · exact (not_lt.mp below).trans (firstLeast entry later).le
        rw [List.dropWhile_cons_of_neg (by simpa using below), List.filter_eq_self.mpr]
        simpa using reached

/-- The entries in clockwise order: from the start up, then those below it. -/
def clockwise (map : SortedMap Key Value) (start : Key) : List (Key × Value) :=
  map.range start ++ map.entries.takeWhile fun entry => entry.1 < start

theorem entries_eq_append (map : SortedMap Key Value) (start : Key) :
    map.entries = map.entries.takeWhile (fun entry => entry.1 < start) ++ map.range start :=
  List.takeWhile_append_dropWhile.symm

theorem mem_clockwise {map : SortedMap Key Value} {start : Key} {entry : Key × Value} :
    entry ∈ map.clockwise start ↔ entry ∈ map := by
  have split : entry ∈ map ↔ entry ∈ map.entries.takeWhile (fun entry => entry.1 < start) ++
      map.range start := by
    rw [← entries_eq_append]
    rfl
  rw [clockwise, split, List.mem_append, List.mem_append, or_comm]

theorem le_of_mem_range {map : SortedMap Key Value} {start : Key} {entry : Key × Value}
    (member : entry ∈ map.range start) : start ≤ entry.1 := by
  rw [range_eq_filter] at member
  simpa using (List.mem_filter.mp member).2

theorem takeWhile_eq_filter (map : SortedMap Key Value) (start : Key) :
    (map.entries.takeWhile fun entry => entry.1 < start) =
      map.entries.filter fun entry => entry.1 < start := by
  have below : (map.entries.takeWhile fun entry => entry.1 < start).filter
      (fun entry => entry.1 < start) = map.entries.takeWhile fun entry => entry.1 < start := by
    rw [List.filter_eq_self]
    intro entry member
    simpa using List.mem_takeWhile_imp member
  have reached : (map.range start).filter (fun entry => entry.1 < start) = [] := by
    rw [List.filter_eq_nil_iff]
    intro entry member
    simpa using le_of_mem_range member
  conv => rhs; rw [entries_eq_append map start, List.filter_append, below, reached]
  simp

theorem pairwise_clockwise (map : SortedMap Key Value) (start : Key) :
    (map.clockwise start).Pairwise fun left right => ClockwiseBefore start left.1 right.1 := by
  have below : ∀ entry ∈ map.entries.takeWhile (fun entry => entry.1 < start),
      entry.1 < start := by
    intro entry member
    simpa using List.mem_takeWhile_imp member
  have sorted := map.sorted
  rw [entries_eq_append map start] at sorted
  obtain ⟨frontSorted, rangeSorted, -⟩ := List.pairwise_append.mp sorted
  refine List.pairwise_append.mpr ⟨rangeSorted.imp_of_mem ?_, frontSorted.imp_of_mem ?_, ?_⟩
  · intro left right leftMember rightMember ascending
    refine Or.inr ⟨iff_of_true ?_ ?_, ascending⟩
    · exact le_of_mem_range leftMember
    · exact le_of_mem_range rightMember
  · intro left right leftMember rightMember ascending
    refine Or.inr ⟨iff_of_false ?_ ?_, ascending⟩
    · exact not_le.mpr (below left leftMember)
    · exact not_le.mpr (below right rightMember)
  · intro left leftMember right rightMember
    exact Or.inl ⟨le_of_mem_range leftMember, below right rightMember⟩

/-- The first entry at or after the start, or else the very first, begins the
clockwise order. -/
theorem head?_clockwise (map : SortedMap Key Value) (start : Key) :
    (map.clockwise start).head? = (map.range start).head?.or map.entries.head? := by
  have split := entries_eq_append map start
  cases reached : map.range start with
  | nil =>
      rw [reached, List.append_nil] at split
      rw [clockwise, reached, List.nil_append, ← split]
      rfl
  | cons first rest =>
      rw [clockwise, reached]
      rfl

theorem exists_head?_clockwise {map : SortedMap Key Value} {entry : Key × Value}
    (member : entry ∈ map) (start : Key) :
    ∃ first, (map.clockwise start).head? = some first ∧ first ∈ map := by
  have nonempty : map.clockwise start ≠ [] := List.ne_nil_of_mem (mem_clockwise.mpr member)
  obtain ⟨first, isFirst⟩ := Option.isSome_iff_exists.mp (List.isSome_head?.mpr nonempty)
  exact ⟨first, isFirst, mem_clockwise.mp (List.mem_of_head? isFirst)⟩

/-- Nothing comes before the head. -/
theorem not_before_head? {map : SortedMap Key Value} {start : Key} {first entry : Key × Value}
    (isFirst : (map.clockwise start).head? = some first) (member : entry ∈ map) :
    ¬ ClockwiseBefore start entry.1 first.1 := by
  obtain ⟨rest, split⟩ := List.head?_eq_some_iff.mp isFirst
  have ordered := map.pairwise_clockwise start
  have inOrder : entry ∈ map.clockwise start := mem_clockwise.mpr member
  rw [split] at ordered inOrder
  rcases List.mem_cons.mp inOrder with rfl | later
  · exact fun before => before.asymm before
  · exact ((List.pairwise_cons.mp ordered).1 entry later).asymm

theorem clockwise_retain (map : SortedMap Key Value) (keep : Value → Bool) (start : Key) :
    (map.retain keep).clockwise start =
      (map.clockwise start).filter fun entry => keep entry.2 := by
  simp only [clockwise, range_eq_filter, takeWhile_eq_filter]
  simp only [retain, List.filter_append, List.filter_filter, Bool.and_comm]

/-- The walk from the start through the top and once more through all entries meets
values for the first time in clockwise order. -/
theorem eraseDups_walk [DecidableEq Value] (map : SortedMap Key Value) (start : Key) :
    ((map.range start ++ map.entries).map Prod.snd).eraseDups =
      ((map.clockwise start).map Prod.snd).eraseDups := by
  have split : map.range start ++ map.entries = map.clockwise start ++ map.range start := by
    rw [clockwise, List.append_assoc, ← entries_eq_append]
  rw [split, List.map_append]
  apply eraseDups_append_of_subset
  apply List.map_subset
  exact List.subset_append_left _ _

end SortedMap

end CmxRdma.Lib
