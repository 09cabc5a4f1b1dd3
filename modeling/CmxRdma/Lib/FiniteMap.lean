import Mathlib.Data.List.AList

/-!
Contract: finite maps whose values are filtered and changed together.

Owns: the map of the values a partial function accepts, and its lookups.

Does not own: lookups after a single insertion or removal, which `AList` has.
-/

namespace CmxRdma.Lib.FiniteMap

universe u v w

variable {Key : Type u} {Value : Type v} {Other : Type w}

/-- One entry with its value replaced, if it is kept. -/
def selectEntry (select : Value → Option Other) (entry : Sigma fun _ : Key => Value) :
    Option (Sigma fun _ : Key => Other) :=
  (select entry.2).map fun value => ⟨entry.1, value⟩

theorem selectEntry_of_none {select : Value → Option Other} {entry : Sigma fun _ : Key => Value}
    (refused : select entry.2 = none) : selectEntry select entry = none := by
  rw [selectEntry, refused, Option.map_none]

theorem selectEntry_of_some {select : Value → Option Other} {entry : Sigma fun _ : Key => Value}
    {value : Other} (accepted : select entry.2 = some value) :
    selectEntry select entry = some ⟨entry.1, value⟩ := by
  rw [selectEntry, accepted, Option.map_some]

theorem keys_filterMap_sublist (select : Value → Option Other)
    (entries : List (Sigma fun _ : Key => Value)) :
    (entries.filterMap (selectEntry select)).keys.Sublist entries.keys := by
  induction entries with
  | nil => exact List.Sublist.refl _
  | cons entry rest inductionHypothesis =>
      rw [List.keys_cons]
      cases selected : select entry.2 with
      | none =>
          rw [List.filterMap_cons_none (selectEntry_of_none selected)]
          exact inductionHypothesis.cons entry.1
      | some value =>
          rw [List.filterMap_cons_some (selectEntry_of_some selected), List.keys_cons]
          exact inductionHypothesis.cons_cons entry.1

/-- The entries whose value is accepted, with the accepted value. -/
def filterMapValues (select : Value → Option Other) (map : AList fun _ : Key => Value) :
    AList fun _ : Key => Other where
  entries := map.entries.filterMap (selectEntry select)
  nodupKeys := (keys_filterMap_sublist select map.entries).nodup map.nodupKeys

variable [DecidableEq Key]

theorem dlookup_filterMap (select : Value → Option Other)
    {entries : List (Sigma fun _ : Key => Value)} (nodupKeys : entries.NodupKeys) (key : Key) :
    (entries.filterMap (selectEntry select)).dlookup key =
      (entries.dlookup key).bind select := by
  induction entries with
  | nil => rfl
  | cons entry rest inductionHypothesis =>
      obtain ⟨fresh, restNodup⟩ := List.nodupKeys_cons.mp nodupKeys
      have later := inductionHypothesis restNodup
      by_cases same : key = entry.1
      · subst same
        rw [List.dlookup_cons_eq, Option.bind_some]
        cases selected : select entry.2 with
        | none =>
            rw [List.filterMap_cons_none (selectEntry_of_none selected), later,
              List.dlookup_eq_none.mpr fresh, Option.bind_none]
        | some value =>
            rw [List.filterMap_cons_some (selectEntry_of_some selected)]
            exact @List.dlookup_cons_eq _ (fun _ => Other) _ _ entry.1 value
      · rw [List.dlookup_cons_ne rest entry same, ← later]
        cases selected : select entry.2 with
        | none => rw [List.filterMap_cons_none (selectEntry_of_none selected)]
        | some value =>
            rw [List.filterMap_cons_some (selectEntry_of_some selected)]
            exact List.dlookup_cons_ne _ _ same

@[simp] theorem lookup_filterMapValues (select : Value → Option Other)
    (map : AList fun _ : Key => Value) (key : Key) :
    (filterMapValues select map).lookup key = (map.lookup key).bind select :=
  dlookup_filterMap select map.nodupKeys key

end CmxRdma.Lib.FiniteMap
