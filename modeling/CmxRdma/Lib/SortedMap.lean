import Mathlib.Order.Basic
import Mathlib.Data.List.Sort

/-!
Contract: finite maps over an ordered key type, kept as their entries in
increasing key order.

Owns: the map, insertion and filtering, the entries from a key on, and the rule
that maps with the same entries are equal.

Does not own: any particular key or value.
-/

namespace CmxRdma.Lib

universe u v

/-- Entries in strictly increasing key order, so at most one for each key. -/
structure SortedMap (Key : Type u) (Value : Type v) [LinearOrder Key] where
  entries : List (Key × Value)
  sorted : entries.Pairwise fun left right => left.1 < right.1

namespace SortedMap

variable {Key : Type u} {Value : Type v} [LinearOrder Key]

instance : Membership (Key × Value) (SortedMap Key Value) where
  mem map entry := entry ∈ map.entries

/-- Entries with distinct keys in order are told apart by their members alone. -/
theorem ext_of_mem_iff {left right : SortedMap Key Value}
    (sameEntries : ∀ entry, entry ∈ left ↔ entry ∈ right) : left = right := by
  obtain ⟨leftEntries, leftSorted⟩ := left
  obtain ⟨rightEntries, rightSorted⟩ := right
  have : Std.Irrefl fun left right : Key × Value => left.1 < right.1 :=
    ⟨fun entry => lt_irrefl entry.1⟩
  have : Std.Antisymm fun left right : Key × Value => left.1 < right.1 :=
    ⟨fun _ _ before after => absurd before (lt_asymm after)⟩
  have same : leftEntries = rightEntries := leftSorted.eq_of_mem_iff rightSorted sameEntries
  subst same
  rfl

def empty : SortedMap Key Value := ⟨[], List.Pairwise.nil⟩

theorem notMem_empty (entry : Key × Value) : entry ∉ (empty : SortedMap Key Value) :=
  List.not_mem_nil

/-! ## Insertion -/

/-- Put the entry in its place, instead of one with the same key. -/
def insertEntry (key : Key) (value : Value) : List (Key × Value) → List (Key × Value)
  | [] => [(key, value)]
  | entry :: rest =>
      if key < entry.1 then (key, value) :: entry :: rest
      else if key = entry.1 then (key, value) :: rest
      else entry :: insertEntry key value rest

theorem mem_insertEntry {key : Key} {value : Value} {entries : List (Key × Value)}
    (sorted : entries.Pairwise fun left right => left.1 < right.1) (entry : Key × Value) :
    entry ∈ insertEntry key value entries ↔
      entry = (key, value) ∨ entry ∈ entries ∧ entry.1 ≠ key := by
  induction entries with
  | nil => simp [insertEntry]
  | cons first rest inductionHypothesis =>
      obtain ⟨firstLeast, restSorted⟩ := List.pairwise_cons.mp sorted
      rw [insertEntry]
      split_ifs with before same
      · -- every old key is above the new one
        have above : ∀ old ∈ first :: rest, old.1 ≠ key := by
          intro old member
          rcases List.mem_cons.mp member with rfl | later
          · exact before.ne'
          · exact (before.trans (firstLeast old later)).ne'
        rw [List.mem_cons]
        exact or_congr_right ⟨fun member => ⟨member, above entry member⟩, And.left⟩
      · have above : ∀ old ∈ rest, old.1 ≠ key := by
          intro old later
          rw [same]
          exact (firstLeast old later).ne'
        rw [List.mem_cons, List.mem_cons]
        refine or_congr_right ⟨fun later => ⟨Or.inr later, above entry later⟩, ?_⟩
        rintro ⟨rfl | later, other⟩
        · exact absurd same.symm other
        · exact later
      · rw [List.mem_cons, inductionHypothesis restSorted, List.mem_cons]
        constructor
        · rintro (rfl | isNew | ⟨later, other⟩)
          · exact Or.inr ⟨Or.inl rfl, Ne.symm same⟩
          · exact Or.inl isNew
          · exact Or.inr ⟨Or.inr later, other⟩
        · rintro (isNew | ⟨rfl | later, other⟩)
          · exact Or.inr (Or.inl isNew)
          · exact Or.inl rfl
          · exact Or.inr (Or.inr ⟨later, other⟩)

theorem sorted_insertEntry {entries : List (Key × Value)}
    (sorted : entries.Pairwise fun left right => left.1 < right.1) (key : Key) (value : Value) :
    (insertEntry key value entries).Pairwise fun left right => left.1 < right.1 := by
  induction entries with
  | nil => exact List.pairwise_singleton _ _
  | cons first rest inductionHypothesis =>
      obtain ⟨firstLeast, restSorted⟩ := List.pairwise_cons.mp sorted
      rw [insertEntry]
      split_ifs with before same
      · refine List.pairwise_cons.mpr ⟨fun old member => ?_, sorted⟩
        rcases List.mem_cons.mp member with rfl | later
        · exact before
        · exact before.trans (firstLeast old later)
      · refine List.pairwise_cons.mpr ⟨fun old later => ?_, restSorted⟩
        rw [same]
        exact firstLeast old later
      · refine List.pairwise_cons.mpr ⟨fun old member => ?_, inductionHypothesis restSorted⟩
        rcases (mem_insertEntry restSorted old).mp member with rfl | ⟨later, -⟩
        · exact lt_of_le_of_ne (not_lt.mp before) (Ne.symm same)
        · exact firstLeast old later

def insert (map : SortedMap Key Value) (key : Key) (value : Value) : SortedMap Key Value where
  entries := insertEntry key value map.entries
  sorted := sorted_insertEntry map.sorted key value

@[simp] theorem mem_insert {map : SortedMap Key Value} {key : Key} {value : Value}
    {entry : Key × Value} :
    entry ∈ map.insert key value ↔ entry = (key, value) ∨ entry ∈ map ∧ entry.1 ≠ key :=
  mem_insertEntry map.sorted entry

/-! ## Filtering and reading -/

/-- Keep the entries whose value passes. -/
def retain (map : SortedMap Key Value) (keep : Value → Bool) : SortedMap Key Value where
  entries := map.entries.filter fun entry => keep entry.2
  sorted := map.sorted.filter _

@[simp] theorem mem_retain {map : SortedMap Key Value} {keep : Value → Bool}
    {entry : Key × Value} : entry ∈ map.retain keep ↔ entry ∈ map ∧ keep entry.2 = true :=
  List.mem_filter

/-- The entries from a key on, in order. -/
def range (map : SortedMap Key Value) (key : Key) : List (Key × Value) :=
  map.entries.dropWhile fun entry => entry.1 < key

end SortedMap

end CmxRdma.Lib
