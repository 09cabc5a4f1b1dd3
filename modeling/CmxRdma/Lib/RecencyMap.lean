import Mathlib.Data.List.Dedup

/-!
Contract: the ideal bounded LRU map, a list of key/value pairs ordered by last
access, most recent first.

Owns: lookup, erasing, moving to the front, bounded insertion with its victim,
how lookups and key lists behave under them, and that they commute with any
other view of the values.

Does not own: any implementation.
-/

namespace CmxRdma.Lib.RecencyMap

universe u v

variable {Key : Type u} {Value : Type v} [DecidableEq Key]

/-- The value stored under a key. -/
def find (key : Key) : List (Key × Value) → Option Value
  | [] => none
  | entry :: rest => if entry.1 = key then some entry.2 else find key rest

/-- The entries without a key. -/
def erase (key : Key) : List (Key × Value) → List (Key × Value)
  | [] => []
  | entry :: rest => if entry.1 = key then erase key rest else entry :: erase key rest

/-- Move a present key to the front. -/
def bring (key : Key) (entries : List (Key × Value)) : List (Key × Value) :=
  match find key entries with
  | none => entries
  | some value => (key, value) :: erase key entries

/-- Insert at the front. A present key is replaced and nothing leaves; a new key
that meets `capacity` entries pushes out the last one. -/
def put (capacity : Nat) (key : Key) (value : Value) (entries : List (Key × Value)) :
    List Key × List (Key × Value) :=
  if key ∈ entries.map Prod.fst then ([], (key, value) :: erase key entries)
  else if entries.length < capacity then ([], (key, value) :: entries)
  else ((entries.map Prod.fst).getLast?.toList, (key, value) :: entries.dropLast)

/-! ## Lookup -/

@[simp] theorem find_nil (key : Key) : find key ([] : List (Key × Value)) = none := rfl

@[simp] theorem find_cons_self (key : Key) (value : Value) (entries : List (Key × Value)) :
    find key ((key, value) :: entries) = some value := by
  simp [find]

theorem find_cons_ne {key other : Key} (different : other ≠ key) (value : Value)
    (entries : List (Key × Value)) :
    find key ((other, value) :: entries) = find key entries := by
  simp [find, different]

theorem find_eq_none_iff {key : Key} {entries : List (Key × Value)} :
    find key entries = none ↔ key ∉ entries.map Prod.fst := by
  induction entries with
  | nil => simp
  | cons entry rest inductionHypothesis =>
      by_cases same : entry.1 = key
      · simp [find, same]
      · simp only [find, same, ↓reduceIte, inductionHypothesis, List.map_cons, List.mem_cons,
          not_or]
        exact ⟨fun absent => ⟨Ne.symm same, absent⟩, And.right⟩

theorem find_isSome_iff {key : Key} {entries : List (Key × Value)} :
    (find key entries).isSome ↔ key ∈ entries.map Prod.fst := by
  rw [← not_iff_not, ← find_eq_none_iff]
  simp

theorem mem_of_find_eq_some {key : Key} {value : Value} {entries : List (Key × Value)}
    (found : find key entries = some value) : (key, value) ∈ entries := by
  induction entries with
  | nil => simp at found
  | cons entry rest inductionHypothesis =>
      by_cases same : entry.1 = key
      · simp only [find, same, ↓reduceIte, Option.some.injEq] at found
        rw [← same, ← found]
        exact List.mem_cons_self
      · simp only [find, same, ↓reduceIte] at found
        exact List.mem_cons_of_mem _ (inductionHypothesis found)

theorem find_eq_some_of_mem {key : Key} {value : Value} {entries : List (Key × Value)}
    (nodup : (entries.map Prod.fst).Nodup) (member : (key, value) ∈ entries) :
    find key entries = some value := by
  induction entries with
  | nil => simp at member
  | cons entry rest inductionHypothesis =>
      simp only [List.map_cons, List.nodup_cons] at nodup
      rcases List.mem_cons.mp member with isHead | inRest
      · rw [← isHead, find_cons_self]
      · have different : entry.1 ≠ key := by
          intro same
          exact nodup.1 (same ▸ List.mem_map.mpr ⟨_, inRest, rfl⟩)
        rw [find, if_neg different]
        exact inductionHypothesis nodup.2 inRest

/-! ## Erasing -/

@[simp] theorem find_erase_self (key : Key) (entries : List (Key × Value)) :
    find key (erase key entries) = none := by
  induction entries with
  | nil => rfl
  | cons entry rest inductionHypothesis =>
      by_cases same : entry.1 = key
      · simpa [erase, same] using inductionHypothesis
      · simpa [erase, find, same] using inductionHypothesis

theorem find_erase_ne {key other : Key} (different : key ≠ other)
    (entries : List (Key × Value)) :
    find key (erase other entries) = find key entries := by
  induction entries with
  | nil => rfl
  | cons entry rest inductionHypothesis =>
      by_cases erased : entry.1 = other
      · have notHere : entry.1 ≠ key := erased ▸ Ne.symm different
        rw [erase, if_pos erased, inductionHypothesis, find, if_neg notHere]
      · rw [erase, if_neg erased, find, find, inductionHypothesis]

theorem erase_of_notMem {key : Key} {entries : List (Key × Value)}
    (absent : key ∉ entries.map Prod.fst) : erase key entries = entries := by
  induction entries with
  | nil => rfl
  | cons entry rest inductionHypothesis =>
      simp only [List.map_cons, List.mem_cons, not_or] at absent
      rw [erase, if_neg (Ne.symm absent.1), inductionHypothesis absent.2]

theorem erase_eq_filter (key : Key) (entries : List (Key × Value)) :
    erase key entries = entries.filter fun entry => entry.1 ≠ key := by
  induction entries with
  | nil => rfl
  | cons entry rest inductionHypothesis =>
      by_cases same : entry.1 = key
      · rw [erase, if_pos same, inductionHypothesis, List.filter_cons_of_neg (by simpa using same)]
      · rw [erase, if_neg same, inductionHypothesis, List.filter_cons_of_pos (by simpa using same)]

theorem keys_erase {key : Key} {entries : List (Key × Value)}
    (nodup : (entries.map Prod.fst).Nodup) :
    (erase key entries).map Prod.fst = (entries.map Prod.fst).erase key := by
  induction entries with
  | nil => rfl
  | cons entry rest inductionHypothesis =>
      simp only [List.map_cons, List.nodup_cons] at nodup
      by_cases same : entry.1 = key
      · rw [erase, if_pos same, erase_of_notMem (same ▸ nodup.1), List.map_cons, same,
          List.erase_cons_head]
      · rw [erase, if_neg same, List.map_cons, inductionHypothesis nodup.2, List.map_cons,
          List.erase_cons_tail (by simpa using same)]

/-! ## Dropping the least recent entry -/

theorem find_append_singleton {key : Key} {entries : List (Key × Value)} {last : Key × Value}
    (nodup : ((entries ++ [last]).map Prod.fst).Nodup) :
    find key entries = if key = last.1 then none else find key (entries ++ [last]) := by
  simp only [List.map_append, List.map_cons, List.map_nil, List.nodup_append] at nodup
  by_cases isLast : key = last.1
  · rw [if_pos isLast, find_eq_none_iff, isLast]
    intro member
    exact nodup.2.2 _ member _ (by simp) rfl
  · rw [if_neg isLast]
    clear nodup
    induction entries with
    | nil => simp [find, Ne.symm isLast]
    | cons entry rest inductionHypothesis =>
        simp only [find, List.cons_append, inductionHypothesis]

/-! ## Sizes and victims -/

theorem length_erase_le (key : Key) (entries : List (Key × Value)) :
    (erase key entries).length ≤ entries.length := by
  induction entries with
  | nil => exact Nat.le_refl _
  | cons entry rest inductionHypothesis =>
      rw [erase]
      split
      · exact Nat.le_trans inductionHypothesis (Nat.le_succ _)
      · exact Nat.succ_le_succ inductionHypothesis

theorem length_erase_lt {key : Key} {entries : List (Key × Value)}
    (present : key ∈ entries.map Prod.fst) : (erase key entries).length < entries.length := by
  induction entries with
  | nil => simp at present
  | cons entry rest inductionHypothesis =>
      rw [erase]
      split
      · exact Nat.lt_succ_of_le (length_erase_le key rest)
      · rename_i different
        apply Nat.succ_lt_succ
        apply inductionHypothesis
        simpa [Ne.symm different] using present

theorem length_erase_of_mem {key : Key} {entries : List (Key × Value)}
    (nodup : (entries.map Prod.fst).Nodup) (present : key ∈ entries.map Prod.fst) :
    (erase key entries).length = entries.length - 1 := by
  have sameKeys : ((erase key entries).map Prod.fst).length =
      ((entries.map Prod.fst).erase key).length := congrArg List.length (keys_erase nodup)
  rw [List.length_map, List.length_erase_of_mem present, List.length_map] at sameKeys
  exact sameKeys

theorem length_bring_le (key : Key) (entries : List (Key × Value)) :
    (bring key entries).length ≤ entries.length := by
  unfold bring
  cases found : find key entries with
  | none => exact Nat.le_refl _
  | some value =>
      have present : key ∈ entries.map Prod.fst := by
        rw [← find_isSome_iff, found]
        rfl
      exact length_erase_lt present

/-- Moving to the front keeps the size. -/
theorem length_bring {key : Key} {entries : List (Key × Value)}
    (nodup : (entries.map Prod.fst).Nodup) : (bring key entries).length = entries.length := by
  unfold bring
  cases found : find key entries with
  | none => rfl
  | some value =>
      have present : key ∈ entries.map Prod.fst := by
        rw [← find_isSome_iff, found]
        rfl
      have nonempty : 0 < entries.length := by simpa using List.length_pos_of_mem present
      rw [List.length_cons, length_erase_of_mem nodup present]
      omega

theorem length_put_le {capacity : Nat} (positive : 1 ≤ capacity) {key : Key} {value : Value}
    {entries : List (Key × Value)} (bounded : entries.length ≤ capacity) :
    (put capacity key value entries).2.length ≤ capacity := by
  unfold put
  split
  · rename_i present
    exact Nat.le_trans (length_erase_lt present) bounded
  · split
    · rename_i room
      exact room
    · simp only [List.length_cons, List.length_dropLast]
      omega

/-- Inserting grows the map only for a new key below capacity. -/
theorem length_put {capacity : Nat} (positive : 1 ≤ capacity) {key : Key} {value : Value}
    {entries : List (Key × Value)} (nodup : (entries.map Prod.fst).Nodup) :
    (put capacity key value entries).2.length =
      if key ∈ entries.map Prod.fst ∨ capacity ≤ entries.length then entries.length
      else entries.length + 1 := by
  unfold put
  by_cases present : key ∈ entries.map Prod.fst
  · have nonempty : 0 < entries.length := by
      simpa using List.length_pos_of_mem present
    rw [if_pos present, if_pos (Or.inl present), List.length_cons,
      length_erase_of_mem nodup present]
    omega
  · by_cases room : entries.length < capacity
    · rw [if_neg present, if_pos room, if_neg (not_or.mpr ⟨present, Nat.not_le.mpr room⟩)]
      rfl
    · rw [if_neg present, if_neg room, if_pos (Or.inr (Nat.le_of_not_lt room)), List.length_cons,
        List.length_dropLast]
      omega

/-- What a put takes out it returns; a new key comes in for it. -/
theorem length_put_add_evicted {capacity : Nat} (positive : 1 ≤ capacity) {key : Key}
    {value : Value} {entries : List (Key × Value)} (nodup : (entries.map Prod.fst).Nodup) :
    (put capacity key value entries).2.length + (put capacity key value entries).1.length =
      entries.length + if key ∈ entries.map Prod.fst then 0 else 1 := by
  rw [length_put positive nodup, put]
  by_cases present : key ∈ entries.map Prod.fst
  · simp [present]
  · by_cases room : entries.length < capacity
    · simp [present, room, Nat.not_le.mpr room]
    · have full : capacity ≤ entries.length := Nat.not_lt.mp room
      obtain ⟨last, isLast⟩ := Option.ne_none_iff_exists'.mp
        (mt List.getLast?_eq_none_iff.mp (List.ne_nil_of_length_pos (l := entries) (by omega)))
      simp [present, room, full, isLast]

/-- The reported keys are exactly those that left. -/
theorem mem_evicted_iff {capacity : Nat} {key other : Key} {value : Value}
    {entries : List (Key × Value)} (nodup : (entries.map Prod.fst).Nodup) :
    other ∈ (put capacity key value entries).1 ↔
      other ∈ entries.map Prod.fst ∧ other ∉ (put capacity key value entries).2.map Prod.fst := by
  unfold put
  split
  · simp only [List.not_mem_nil, List.map_cons, keys_erase nodup, List.mem_cons, not_or,
      false_iff, not_and, not_not]
    intro present different
    exact (List.mem_erase_of_ne different).mpr present
  · rename_i absent
    split
    · simp only [List.not_mem_nil, List.map_cons, List.mem_cons, not_or, false_iff, not_and,
        not_not]
      exact fun present _ => present
    · rcases List.eq_nil_or_concat entries with empty | ⟨front, last, split⟩
      · simp [empty]
      · rw [List.concat_eq_append] at split
        subst split
        simp only [List.map_append, List.map_cons, List.map_nil, List.nodup_append] at nodup
        have lastApart : last.1 ∉ front.map Prod.fst := fun member =>
          nodup.2.2 _ member _ (by simp) rfl
        have different : other = last.1 → other ≠ key := by
          rintro rfl rfl
          exact absent (by simp)
        simp only [List.map_append, List.map_cons, List.map_nil, List.getLast?_append,
          List.getLast?_singleton, Option.some_or, Option.toList_some, List.not_mem_nil,
          or_false, List.dropLast_concat, List.mem_append, List.mem_cons, not_or]
        constructor
        · intro isLast
          exact ⟨Or.inr isLast, different isLast, isLast ▸ lastApart⟩
        · rintro ⟨inFront | isLast, -, notInFront⟩
          · exact absurd inFront notInFront
          · exact isLast

/-! ## Entries that stay -/

theorem erase_sublist (key : Key) (entries : List (Key × Value)) :
    (erase key entries).Sublist entries := by
  induction entries with
  | nil => exact List.Sublist.slnil
  | cons entry rest inductionHypothesis =>
      by_cases same : entry.1 = key
      · rw [erase, if_pos same]
        exact inductionHypothesis.cons entry
      · rw [erase, if_neg same]
        exact inductionHypothesis.cons_cons entry

theorem notMem_keys_erase (key : Key) (entries : List (Key × Value)) :
    key ∉ (erase key entries).map Prod.fst :=
  find_eq_none_iff.mp (find_erase_self key entries)

theorem mem_of_mem_erase {key : Key} {entry : Key × Value} {entries : List (Key × Value)}
    (member : entry ∈ erase key entries) : entry ∈ entries :=
  (erase_sublist key entries).subset member

theorem mem_of_mem_bring {key : Key} {entry : Key × Value} {entries : List (Key × Value)}
    (member : entry ∈ bring key entries) : entry ∈ entries := by
  unfold bring at member
  split at member
  · exact member
  · rename_i value found
    rcases List.mem_cons.mp member with rfl | old
    · exact mem_of_find_eq_some found
    · exact mem_of_mem_erase old

theorem mem_of_mem_put {capacity : Nat} {key : Key} {value : Value} {entry : Key × Value}
    {entries : List (Key × Value)} (member : entry ∈ (put capacity key value entries).2) :
    entry = (key, value) ∨ entry ∈ entries := by
  unfold put at member
  split at member
  · exact (List.mem_cons.mp member).imp_right mem_of_mem_erase
  · split at member
    · exact List.mem_cons.mp member
    · exact (List.mem_cons.mp member).imp_right fun old => List.dropLast_subset _ old

/-! ## Distinct keys -/

theorem keys_erase_nodup {key : Key} {entries : List (Key × Value)}
    (nodup : (entries.map Prod.fst).Nodup) : ((erase key entries).map Prod.fst).Nodup :=
  nodup.sublist ((erase_sublist key entries).map Prod.fst)

theorem keys_bring_nodup {key : Key} {entries : List (Key × Value)}
    (nodup : (entries.map Prod.fst).Nodup) : ((bring key entries).map Prod.fst).Nodup := by
  unfold bring
  split
  · exact nodup
  · exact List.nodup_cons.mpr ⟨notMem_keys_erase key entries, keys_erase_nodup nodup⟩

theorem keys_put_nodup {capacity : Nat} {key : Key} {value : Value}
    {entries : List (Key × Value)} (nodup : (entries.map Prod.fst).Nodup) :
    ((put capacity key value entries).2.map Prod.fst).Nodup := by
  unfold put
  split
  · exact List.nodup_cons.mpr ⟨notMem_keys_erase key entries, keys_erase_nodup nodup⟩
  · rename_i absent
    split
    · exact List.nodup_cons.mpr ⟨absent, nodup⟩
    · refine List.nodup_cons.mpr ⟨fun member => absent ?_, ?_⟩
      · exact ((List.dropLast_sublist entries).map Prod.fst).subset member
      · exact nodup.sublist ((List.dropLast_sublist entries).map Prod.fst)

/-! ## Another view of the values -/

section MapValues

universe w

variable {Other : Type w} (view : Value → Other)

/-- The same keys in the same order with their values seen through `view`. -/
def mapValues (entries : List (Key × Value)) : List (Key × Other) :=
  entries.map (Prod.map id view)

omit [DecidableEq Key] in
theorem keys_mapValues (entries : List (Key × Value)) :
    (mapValues view entries).map Prod.fst = entries.map Prod.fst := by
  simp [mapValues, Function.comp_def]

theorem find_mapValues (key : Key) (entries : List (Key × Value)) :
    find key (mapValues view entries) = (find key entries).map view := by
  induction entries with
  | nil => rfl
  | cons entry rest inductionHypothesis =>
      rw [mapValues, List.map_cons, find, find, ← mapValues, inductionHypothesis]
      simp only [Prod.map_fst, id_eq, Prod.map_snd]
      split <;> rfl

theorem erase_mapValues (key : Key) (entries : List (Key × Value)) :
    erase key (mapValues view entries) = mapValues view (erase key entries) := by
  induction entries with
  | nil => rfl
  | cons entry rest inductionHypothesis =>
      rw [mapValues, List.map_cons, erase, erase, ← mapValues, inductionHypothesis]
      simp only [Prod.map_fst, id_eq]
      split <;> rfl

theorem bring_mapValues (key : Key) (entries : List (Key × Value)) :
    bring key (mapValues view entries) = mapValues view (bring key entries) := by
  unfold bring
  rw [find_mapValues, erase_mapValues]
  cases find key entries <;> rfl

theorem put_mapValues (capacity : Nat) (key : Key) (value : Value)
    (entries : List (Key × Value)) :
    put capacity key (view value) (mapValues view entries) =
      ((put capacity key value entries).1, mapValues view (put capacity key value entries).2) := by
  unfold put
  rw [keys_mapValues, erase_mapValues]
  simp only [mapValues, List.length_map, ← List.map_dropLast]
  split
  · rfl
  · split <;> rfl

end MapValues

/-! ## Other keys -/

/-- Renaming keys keeps a lookup as long as nothing else is renamed to the key. -/
theorem find_map_key {Renamed : Type*} [DecidableEq Renamed] {rename : Key → Renamed} {key : Key}
    {entries : List (Key × Value)}
    (apart : ∀ entry ∈ entries, rename entry.1 = rename key → entry.1 = key) :
    find (rename key) (entries.map (Prod.map rename id)) = find key entries := by
  induction entries with
  | nil => rfl
  | cons entry rest inductionHypothesis =>
      have sameKey : rename entry.1 = rename key ↔ entry.1 = key :=
        ⟨apart entry List.mem_cons_self, congrArg rename⟩
      rw [List.map_cons, find, find,
        inductionHypothesis fun other member => apart other (List.mem_cons_of_mem _ member)]
      simp only [Prod.map_fst, Prod.map_snd, id_eq, sameKey]

end CmxRdma.Lib.RecencyMap
