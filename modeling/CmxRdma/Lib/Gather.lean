import Mathlib.Data.List.AList
import Mathlib.Data.Multiset.AddSub

/-!
Contract: what the values of a finite map hold together.

Owns: the multiset of items a map holds through its values, and how inserting
and erasing a key changes it.

Does not own: any particular kind of item.
-/

namespace CmxRdma.Lib.Gather

universe u v w

variable {Key : Type u} {Value : Type v} {Item : Type w} [DecidableEq Key]
  {items : Value → List Item} {map : AList (fun _ : Key => Value)} {key : Key} {value : Value}

/-- The items of all values of a map, with multiplicity. -/
def gather (items : Value → List Item) (map : AList (fun _ : Key => Value)) : Multiset Item :=
  (map.entries.flatMap fun entry => items entry.2 : List Item)

/-- The entry of a present key in front of the others. -/
theorem entries_perm_of_lookup (found : map.lookup key = some value) :
    map.entries.Perm (⟨key, value⟩ :: (map.erase key).entries) := by
  have inKeys : key ∈ map.entries.keys := by
    rw [← List.dlookup_isSome]
    exact Option.isSome_iff_exists.mpr ⟨value, found⟩
  obtain ⟨other, front, back, notInFront, split, erased⟩ := List.exists_of_kerase inKeys
  have sameValue : other = value := by
    have member : (⟨key, other⟩ : Sigma fun _ : Key => Value) ∈ map.entries := by
      rw [split]
      exact List.mem_append_right _ List.mem_cons_self
    have lookedUp : map.lookup key = some other := AList.mem_lookup_iff.mpr member
    exact Option.some.inj (lookedUp.symm.trans found)
  subst sameValue
  rw [show (map.erase key).entries = front ++ back from erased, split]
  exact List.perm_middle

theorem gather_eq_of_lookup (found : map.lookup key = some value) :
    gather items map = ↑(items value) + gather items (map.erase key) := by
  rw [gather, gather, Multiset.coe_add]
  exact Multiset.coe_eq_coe.mpr ((entries_perm_of_lookup found).flatMap_right _)

theorem erase_of_lookup_eq_none (missing : map.lookup key = none) : map.erase key = map := by
  apply AList.ext
  exact List.kerase_of_notMem_keys (AList.lookup_eq_none.mp missing)

theorem gather_erase_le (key : Key) : gather items (map.erase key) ≤ gather items map := by
  cases found : map.lookup key with
  | none => rw [erase_of_lookup_eq_none found]
  | some value =>
      rw [gather_eq_of_lookup found]
      exact Multiset.le_add_left _ _

theorem gather_insert (key : Key) (value : Value) :
    gather items (map.insert key value) = ↑(items value) + gather items (map.erase key) := rfl

/-- One item per value: as many items as entries. -/
theorem card_gather (single : ∀ key value, map.lookup key = some value → (items value).length = 1) :
    Multiset.card (gather items map) = map.entries.length := by
  have lengths : ∀ entry ∈ map.entries, (items entry.2).length = 1 := fun entry member =>
    single entry.1 entry.2 (AList.mem_lookup_iff.mpr member)
  rw [gather, Multiset.coe_card, List.length_flatMap, List.map_congr_left lengths]
  simp

theorem mem_gather {item : Item} :
    item ∈ gather items map ↔ ∃ key value, map.lookup key = some value ∧ item ∈ items value := by
  rw [gather, Multiset.mem_coe, List.mem_flatMap]
  constructor
  · rintro ⟨entry, member, holds⟩
    exact ⟨entry.1, entry.2, AList.mem_lookup_iff.mpr member, holds⟩
  · rintro ⟨key, value, found, holds⟩
    exact ⟨⟨key, value⟩, AList.mem_lookup_iff.mp found, holds⟩

end CmxRdma.Lib.Gather
