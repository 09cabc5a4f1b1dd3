import CmxRdma.BlockStore.IndexRefinement
import CmxRdma.Lib.RecencySafety

/-!
Contract: how long a used entry stays in `BlockIndex`.

Owns: the keys a call sequence inserts or finds, the entry a key's last insert
wrote, and that an entry outlasts every traffic of fewer distinct other keys
than the capacity.

Does not own: calls whose steps interleave; see `IndexConcurrency`.
-/

namespace CmxRdma.BlockStore.BlockIndex

open CmxRdma.Lib
open CmxRdma.Lib.RecencyMap
open CmxRdma.Lib.Transition

/-! ## Used keys and last inserts -/

/-- The key a call inserts or hits, given its result. A missed lookup, a `remove`
and a `contains` use none. -/
def Call.usedKey : Call → Result → Option PrefixHash
  | .insert key _ _, _ => some key
  | .lookup key, .entry (some _) => some key
  | _, _ => none

/-- The keys inserted or hit along a call sequence. -/
def usedKeys (index : BlockIndex) (calls : List Call) : List PrefixHash :=
  (calls.zip (outputs step index calls)).filterMap fun answered => answered.1.usedKey answered.2

/-- The entry a call writes under a key. -/
def Call.written (key : PrefixHash) : Call → Option IndexEntry
  | .insert other blocks createdAt => if other = key then some ⟨blocks, createdAt⟩ else none
  | _ => none

/-- The entry of a key's last insert. -/
def lastInsert (key : PrefixHash) (calls : List Call) : Option IndexEntry :=
  calls.reverse.findSome? (Call.written key)

theorem lastInsert_concat (key : PrefixHash) (calls : List Call) (call : Call) :
    lastInsert key (calls ++ [call]) = (call.written key).or (lastInsert key calls) := by
  unfold lastInsert
  rw [List.reverse_append, List.reverse_singleton, List.singleton_append, List.findSome?_cons]
  cases call.written key <;> rfl

/-- A present key has the entry of its last insert. -/
theorem lastInsert_of_lookup {capacity : Nat} {calls : List Call} {key : PrefixHash}
    {entry : IndexEntry}
    (found : (run (next step) (BlockIndex.new capacity) calls).map.lookup key = some entry) :
    lastInsert key calls = some entry := by
  induction calls using List.reverseRecOn with
  | nil => cases found
  | append_singleton calls call inductionHypothesis =>
      rw [run_append] at found
      generalize run (next step) (BlockIndex.new capacity) calls = index
        at found inductionHypothesis
      rw [lastInsert_concat]
      cases call with
      | lookup other =>
          have unchanged : (index.lookup other).1.map = index.map := lookup_map index other
          exact inductionHypothesis (unchanged ▸ found)
      | contains other => exact inductionHypothesis found
      | remove other =>
          have erased : (index.map.erase other).lookup key = some entry :=
            remove_map index other ▸ found
          by_cases same : key = other
          · rw [same, AList.lookup_erase] at erased
            cases erased
          · rw [AList.lookup_erase_ne same] at erased
            exact inductionHypothesis erased
      | insert other blocks createdAt =>
          by_cases same : other = key
          · subst same
            have written : some (⟨blocks, createdAt⟩ : IndexEntry) = some entry :=
              (AList.lookup_insert _).symm.trans found
            simpa [Call.written] using written
          · rcases lookup_of_lookup_insert found with ⟨isKey, -⟩ | old
            · exact absurd isKey.symm same
            · simpa [Call.written, same] using inductionHypothesis old

/-! ## Staying clear of eviction -/

/-- The index shows a recency list in which only rivals stand in front of the key. -/
def KeepsClear (capacity : Nat) (rivals : Finset PrefixHash) (key : PrefixHash)
    (index : BlockIndex) : Prop :=
  ∃ ideal, Simulates capacity index ideal ∧ OnlyBehind rivals key ideal

theorem KeepsClear.mem {capacity : Nat} {rivals : Finset PrefixHash} {key : PrefixHash}
    {index : BlockIndex} (clear : KeepsClear capacity rivals key index) : key ∈ index.map := by
  obtain ⟨ideal, simulates, behind⟩ := clear
  exact (simulates.refines.mem_iff key).mpr behind.mem

/-- A used key is in front of everything. -/
theorem keepsClear_of_used {capacity : Nat} {index : BlockIndex}
    {ideal : List (PrefixHash × IndexEntry)} (simulates : Simulates capacity index ideal)
    {call : Call} {key : PrefixHash} (used : call.usedKey (index.step call).2 = some key)
    (rivals : Finset PrefixHash) :
    KeepsClear capacity rivals key (index.step call).1 := by
  obtain ⟨sameResult, stepped⟩ := step_simulates call simulates
  refine ⟨_, stepped, ?_⟩
  rw [sameResult] at used
  cases call with
  | lookup other =>
      cases found : find other ideal with
      | none => simp [idealStep, found, Call.usedKey] at used
      | some entry =>
          simp only [idealStep, found, Call.usedKey, Option.some.injEq] at used
          subst used
          simp only [idealStep, bring, found]
          exact onlyBehind_front rivals other entry _
  | insert other blocks createdAt =>
      cases used
      simp only [idealStep, put]
      split_ifs <;> exact onlyBehind_front rivals key _ _
  | remove other => simp [Call.usedKey] at used
  | contains other => simp [Call.usedKey] at used

/-- A call that uses the key or a rival, and does not remove the key, keeps it clear. -/
theorem KeepsClear.step {capacity : Nat} (positive : 1 ≤ capacity) {rivals : Finset PrefixHash}
    (few : rivals.card < capacity) {key : PrefixHash} {index : BlockIndex}
    (clear : KeepsClear capacity rivals key index) {call : Call}
    (rival : ∀ other, call.usedKey (index.step call).2 = some other → other ≠ key →
      other ∈ rivals)
    (kept : call ≠ .remove key) : KeepsClear capacity rivals key (index.step call).1 := by
  obtain ⟨ideal, simulates, behind⟩ := clear
  obtain ⟨sameResult, stepped⟩ := step_simulates call simulates
  refine ⟨_, stepped, ?_⟩
  rw [sameResult] at rival
  rw [max_eq_right positive] at rival ⊢
  cases call with
  | lookup other =>
      refine behind.bring fun present => rival other ?_
      obtain ⟨entry, found⟩ := Option.isSome_iff_exists.mp (find_isSome_iff.mpr present)
      simp [idealStep, found, Call.usedKey]
  | insert other blocks createdAt =>
      exact behind.put simulates.refines.nodup few (rival other rfl) _
  | remove other => exact behind.erase fun same => kept (congrArg Call.remove same)
  | contains other => exact behind

/-- The keys used along a run are those its calls use one by one. -/
theorem allows_of_usedKeys {Holds : PrefixHash → Prop} {index : BlockIndex} {calls : List Call}
    (holds : ∀ key ∈ usedKeys index calls, Holds key) :
    Allows (next step) (fun index call =>
      ∀ key, call.usedKey (index.step call).2 = some key → Holds key) index calls := by
  induction calls generalizing index with
  | nil => trivial
  | cons call rest inductionHypothesis =>
      simp only [usedKeys, outputs, List.zip_cons_cons, List.mem_filterMap, List.mem_cons] at holds
      refine ⟨fun key used => holds key ⟨_, Or.inl rfl, used⟩, inductionHypothesis ?_⟩
      intro key member
      obtain ⟨answered, later, used⟩ := List.mem_filterMap.mp member
      exact holds key ⟨answered, Or.inr later, used⟩

/-- A key that was inserted or hit, and since then not removed, is still present
with the entry of its last insert as long as fewer distinct other keys were
inserted or hit than the index has room for. -/
theorem recently_used_entry_stays {capacity : Nat} (positive : 1 ≤ capacity)
    (before after : List Call) (call : Call) (key : PrefixHash)
    (used : call.usedKey ((run (next step) (BlockIndex.new capacity) before).step call).2 =
      some key)
    (kept : Call.remove key ∉ after)
    (few : ((usedKeys (run (next step) (BlockIndex.new capacity) (before ++ [call]))
      after).toFinset.erase key).card < capacity) :
    ∃ entry, lastInsert key (before ++ call :: after) = some entry ∧
      (run (next step) (BlockIndex.new capacity) (before ++ call :: after)).map.lookup key =
        some entry := by
  have regrouped : before ++ call :: after = (before ++ [call]) ++ after := by simp
  rw [regrouped]
  set start := run (next step) (BlockIndex.new capacity) (before ++ [call]) with startEq
  set rivals := (usedKeys start after).toFinset.erase key with rivalsEq
  have clear : KeepsClear capacity rivals key start := by
    rw [startEq, run_append]
    exact keepsClear_of_used (outputs_simulate capacity before).2 used rivals
  have allowed := (allows_of_usedKeys (fun other member => show other ≠ key → other ∈ rivals by
    intro different
    rw [rivalsEq, Finset.mem_erase, List.mem_toFinset]
    exact ⟨different, member⟩)).and_forall
      (fun later member => show later ≠ .remove key from fun same => kept (same ▸ member))
  have atEnd : KeepsClear capacity rivals key (run (next step) start after) :=
    run_invariant_of_allows
      (fun _ _ allowed clear => clear.step positive few allowed.1 allowed.2) clear allowed
  obtain ⟨entry, found⟩ := Option.isSome_iff_exists.mp (AList.lookup_isSome.mpr atEnd.mem)
  rw [startEq, ← run_append] at found
  exact ⟨entry, lastInsert_of_lookup found, found⟩

/-- With room for two, an entry hit once outlasts a rival that is inserted, removed
and inserted again, and lookups that miss. -/
theorem recently_used_entry_stays_one_rival :
    let before : List Call := [.insert (.ofByte 1) [] 5, .insert (.ofByte 2) [] 6]
    let after : List Call := [.insert (.ofByte 3) [] 7, .lookup (.ofByte 4),
      .remove (.ofByte 3), .lookup (.ofByte 2), .insert (.ofByte 3) [] 8]
    ∃ entry, lastInsert (.ofByte 1) (before ++ .lookup (.ofByte 1) :: after) = some entry ∧
      (run (next step) (BlockIndex.new 2) (before ++ .lookup (.ofByte 1) :: after)).map.lookup
        (.ofByte 1) = some entry := by
  intro before after
  have used : Call.usedKey (.lookup (.ofByte 1))
      ((run (next step) (BlockIndex.new 2) before).step (.lookup (.ofByte 1))).2 =
        some (.ofByte 1) := by decide +kernel
  have kept : Call.remove (.ofByte 1) ∉ after := by
    simp only [after, List.mem_cons, List.not_mem_nil, Call.remove.injEq, reduceCtorEq, or_false,
      false_or]
    decide
  have few : ((usedKeys (run (next step) (BlockIndex.new 2) (before ++ [.lookup (.ofByte 1)]))
      after).toFinset.erase (.ofByte 1)).card < 2 := by decide +kernel
  exact recently_used_entry_stays (by decide) before after _ _ used kept few

end CmxRdma.BlockStore.BlockIndex
