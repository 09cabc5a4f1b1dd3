import Mathlib.Algebra.GroupWithZero.Nat
import Mathlib.Data.List.Basic

/-!
Contract: a list cut into consecutive slices of one size.

Owns: the slices, their number and lengths, that together they are the list, and
that a prefix is the slices it covers.

Does not own: what a slice is used for.
-/

namespace CmxRdma.Lib.Slices

universe u

variable {Item : Type u}

/-- The slice from `index * size` on, shorter at the end of the list. -/
def slice (size index : Nat) (items : List Item) : List Item :=
  (items.drop (index * size)).take size

/-- How many slices cover `length` items. -/
def sliceCount (size length : Nat) : Nat := (length + size - 1) / size

def slices (size : Nat) (items : List Item) : List (List Item) :=
  (List.range (sliceCount size items.length)).map fun index => slice size index items

theorem lt_sliceCount_iff {size : Nat} (positive : 1 ≤ size) (index length : Nat) :
    index < sliceCount size length ↔ index * size < length := by
  rw [sliceCount, Nat.lt_div_iff_mul_lt positive]
  omega

/-- The slices reach to the end. -/
theorem le_sliceCount_mul {size : Nat} (positive : 1 ≤ size) (length : Nat) :
    length ≤ sliceCount size length * size :=
  Nat.le_of_not_lt fun short =>
    absurd ((lt_sliceCount_iff positive _ _).mpr short) (Nat.lt_irrefl _)

theorem sliceCount_mono (size : Nat) {short long : Nat} (shorter : short ≤ long) :
    sliceCount size short ≤ sliceCount size long := by
  rw [sliceCount, sliceCount]
  exact Nat.div_le_div_right (by omega)

/-- Full slices stay within the items exactly when no slice is partial. -/
theorem sliceCount_mul_le_iff {size : Nat} (positive : 1 ≤ size) (length : Nat) :
    sliceCount size length * size ≤ length ↔ size ∣ length := by
  constructor
  · intro within
    exact ⟨sliceCount size length, by
      rw [Nat.mul_comm]
      exact Nat.le_antisymm (le_sliceCount_mul positive length) within⟩
  · rintro ⟨count, rfl⟩
    rw [Nat.mul_comm size count]
    refine Nat.mul_le_mul_right size (Nat.le_of_not_lt fun more => ?_)
    exact absurd ((lt_sliceCount_iff positive _ _).mp more) (Nat.lt_irrefl _)

@[simp] theorem slices_length (size : Nat) (items : List Item) :
    (slices size items).length = sliceCount size items.length := by
  simp [slices]

theorem slices_eq_nil_iff {size : Nat} (positive : 1 ≤ size) (items : List Item) :
    slices size items = [] ↔ items = [] := by
  rw [← List.length_eq_zero_iff, slices_length, ← List.length_eq_zero_iff]
  have nonempty := lt_sliceCount_iff positive 0 items.length
  omega

theorem slices_getElem {size index : Nat} {items : List Item}
    (inside : index < (slices size items).length) :
    (slices size items)[index] = slice size index items := by
  simp [slices]

/-- A prefix up to the next boundary is the shorter prefix and one slice. -/
theorem take_succ_mul (size index : Nat) (items : List Item) :
    items.take ((index + 1) * size) = items.take (index * size) ++ slice size index items := by
  rw [Nat.succ_mul, List.take_add, slice]

/-- Prefixes up to a boundary agree when the shorter ones and the slices do. -/
theorem take_succ_mul_eq_iff {size index : Nat} {left right : List Item}
    (leftLong : index * size ≤ left.length) (rightLong : index * size ≤ right.length) :
    left.take ((index + 1) * size) = right.take ((index + 1) * size) ↔
      left.take (index * size) = right.take (index * size) ∧
        slice size index left = slice size index right := by
  rw [take_succ_mul, take_succ_mul]
  constructor
  · intro same
    exact List.append_inj same (by simp [leftLong, rightLong])
  · rintro ⟨sameBefore, sameSlice⟩
    rw [sameBefore, sameSlice]

/-- Lists with a common prefix have its slices in common. -/
theorem slice_eq_of_take_eq {size index count : Nat} {left right : List Item}
    (same : left.take count = right.take count) (covered : (index + 1) * size ≤ count) :
    slice size index left = slice size index right := by
  have cut (items : List Item) :
      slice size index items =
        ((items.take count).take ((index + 1) * size)).drop (index * size) := by
    rw [List.take_take, Nat.min_eq_left covered, List.drop_take, slice]
    congr 1
    rw [Nat.succ_mul, Nat.add_sub_cancel_left]
  rw [cut left, cut right, same]

theorem flatten_map_slice (size count : Nat) (items : List Item) :
    ((List.range count).map fun index => slice size index items).flatten =
      items.take (count * size) := by
  induction count with
  | zero => simp
  | succ count inductionHypothesis =>
      rw [List.range_succ, List.map_append, List.flatten_append, inductionHypothesis,
        take_succ_mul]
      simp

theorem flatten_slices {size : Nat} (positive : 1 ≤ size) (items : List Item) :
    (slices size items).flatten = items := by
  rw [slices, flatten_map_slice]
  exact List.take_of_length_le (le_sliceCount_mul positive items.length)

theorem slice_length (size index : Nat) (items : List Item) :
    (slice size index items).length = min size (items.length - index * size) := by
  rw [slice, List.length_take, List.length_drop]

/-- No slice is empty. -/
theorem nil_notMem_slices {size : Nat} (positive : 1 ≤ size) (items : List Item) :
    [] ∉ slices size items := by
  intro isSlice
  obtain ⟨index, inside, empty⟩ := List.mem_map.mp isSlice
  rw [List.mem_range, lt_sliceCount_iff positive] at inside
  have length := slice_length size index items
  rw [empty, List.length_nil] at length
  omega

/-- The lengths of the slices add up. -/
theorem sum_slice_lengths {size : Nat} (positive : 1 ≤ size) (length : Nat) :
    ((List.range (sliceCount size length)).map fun index => min size (length - index * size)).sum =
      length := by
  have total := congrArg List.length (flatten_slices positive (List.replicate length ()))
  rw [List.length_flatten, slices, List.map_map, List.length_replicate] at total
  simpa only [Function.comp_def, slice_length, List.length_replicate] using total

/-- The first slices of a list. -/
theorem take_slices {size count : Nat} {items : List Item}
    (covered : count ≤ sliceCount size items.length) :
    (slices size items).take count =
      (List.range count).map fun index => slice size index items := by
  rw [slices, ← List.map_take, List.take_range, Nat.min_eq_left covered]

/-- The slices of a prefix up to a boundary are the first slices. -/
theorem slices_take_mul {size count : Nat} (positive : 1 ≤ size) {items : List Item}
    (covered : count ≤ sliceCount size items.length) :
    slices size (items.take (count * size)) = (slices size items).take count := by
  have sameCount : sliceCount size (items.take (count * size)).length = count := by
    have enough : ∀ index, index < sliceCount size (items.take (count * size)).length ↔
        index < count ∧ index < sliceCount size items.length := by
      intro index
      rw [lt_sliceCount_iff positive, lt_sliceCount_iff positive, List.length_take, Nat.lt_min,
        Nat.mul_lt_mul_right (show 0 < size from positive)]
    have notFewer := enough (sliceCount size (items.take (count * size)).length)
    have notMore := enough count
    omega
  rw [take_slices covered, slices, sameCount]
  refine List.map_congr_left fun index inside => ?_
  refine slice_eq_of_take_eq ?_ (Nat.mul_le_mul_right size (List.mem_range.mp inside))
  rw [List.take_take, Nat.min_self]

theorem mem_of_mem_slice {size index : Nat} {items : List Item} {item : Item}
    (member : item ∈ slice size index items) : item ∈ items :=
  List.mem_of_mem_drop (List.mem_of_mem_take member)

end CmxRdma.Lib.Slices
