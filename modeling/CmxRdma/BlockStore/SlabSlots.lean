import CmxRdma.BlockStore.RecencyOrder
import CmxRdma.Lib.History

/-!
Contract: the slots of the slab behind `LruPolicy` over whole call sequences.

Owns: that free slots and the slots of live keys are always exactly the slots of
the slab, and that the slab has as many as keys were ever live at once.

Does not own: the order of the live keys; see `RecencyOrder`.
-/

namespace CmxRdma.BlockStore

open CmxRdma.Lib.History
open CmxRdma.Lib.Transition

namespace LruInner

/-- The number of live keys, `LruPolicy::len`. -/
def liveCount (inner : LruInner) : Nat := inner.index.entries.length

theorem Represents.liveCount_eq {inner : LruInner} {nodes : List LruNode}
    (represents : inner.Represents nodes) : inner.liveCount = nodes.length := by
  have nodesNodup :
      (nodes.map fun node => (⟨node.1, node.2⟩ : Sigma fun _ : PrefixHash => Nat)).Nodup := by
    refine List.Nodup.of_map Sigma.fst ?_
    rw [List.map_map]
    exact represents.keysNodup
  have sameEntries : inner.index.entries.Perm
      (nodes.map fun node => (⟨node.1, node.2⟩ : Sigma fun _ : PrefixHash => Nat)) := by
    refine (List.perm_ext_iff_of_nodup inner.index.nodupKeys.nodup nodesNodup).mpr ?_
    rintro ⟨key, slot⟩
    rw [← AList.mem_lookup_iff, Option.mem_def, represents.indexed]
    simp
  simpa [liveCount] using sameEntries.length_eq

/-- A slot of a node is the slot of a live key. -/
theorem Represents.mem_slots_iff {inner : LruInner} {nodes : List LruNode}
    (represents : inner.Represents nodes) (slot : Nat) :
    slot ∈ nodes.map Prod.snd ↔ ∃ key, inner.index.lookup key = some slot := by
  simp only [represents.indexed, List.mem_map]
  constructor
  · rintro ⟨⟨key, _⟩, member, rfl⟩
    exact ⟨key, member⟩
  · rintro ⟨key, member⟩
    exact ⟨(key, slot), member, rfl⟩

/-- The slab shows the keys and has as many slots as the largest number of them so
far. -/
def ShowsPeak (inner : LruInner) (tracked : List PrefixHash × Nat) : Prop :=
  inner.Shows tracked.1 ∧ inner.entries.length = tracked.2

/-- The machine on lists that also keeps the largest length. -/
def peakRecencyStep : List PrefixHash × Nat → LruCall → (List PrefixHash × Nat) × LruAnswer :=
  peakStep List.length recencyStep

theorem call_simulates_peak (inner : LruInner) (tracked : List PrefixHash × Nat) (call : LruCall)
    (related : inner.ShowsPeak tracked) :
    ∃ inner', inner.call call = .ok (inner', (peakRecencyStep tracked call).2) ∧
      inner'.ShowsPeak (peakRecencyStep tracked call).1 := by
  obtain ⟨keys, peak⟩ := tracked
  obtain ⟨⟨nodes, represents, rfl⟩, rfl⟩ := related
  obtain ⟨inner', nodes', called, represents', order, grown⟩ := call_spec represents call
  refine ⟨inner', called, ⟨nodes', represents', order⟩, ?_⟩
  rw [grown, ← List.length_map Prod.fst, order]
  rfl

/-- Every sequence of calls runs without a panic; the slab shows the keys of the list
machine and has as many slots as the largest number of keys so far. -/
theorem attempt_call (calls : List LruCall) :
    ∃ inner, attempt call new calls = .ok (inner, outputs recencyStep [] calls) ∧
      inner.Shows (run (next recencyStep) [] calls) ∧
      inner.entries.length = (run (next peakRecencyStep) ([], 0) calls).2 := by
  have initial : LruInner.new.ShowsPeak ([], 0) := ⟨⟨[], new_represents, rfl⟩, rfl⟩
  obtain ⟨inner, attempted, shows, slots⟩ := attempt_of_simulation call_simulates_peak initial calls
  rw [peakRecencyStep, outputs_peakStep] at attempted
  rw [peakRecencyStep, run_peakStep_fst] at shows
  exact ⟨inner, attempted, shows, slots⟩

theorem liveCount_of_attempt {calls : List LruCall} {inner : LruInner} {answers : List LruAnswer}
    (attempted : attempt call new calls = .ok (inner, answers)) :
    inner.liveCount = (run (next recencyStep) [] calls).length := by
  obtain ⟨other, sameCalls, ⟨nodes, represents, order⟩, -⟩ := attempt_call calls
  obtain rfl : inner = other :=
    congrArg Prod.fst (Except.ok.inj (attempted.symm.trans sameCalls))
  rw [represents.liveCount_eq, ← order, List.length_map]

/-- After any calls on a new policy, the free slots are distinct, the live keys have
distinct slots, none of them free, together these are exactly the slots of the slab,
and the slab has as many as the largest number of keys that were live at once. -/
theorem slab_slots_exact (calls : List LruCall) :
    ∃ inner answers, attempt call new calls = .ok (inner, answers) ∧
      inner.freeIndices.Nodup ∧
      (∀ key other slot, inner.index.lookup key = some slot →
        inner.index.lookup other = some slot → key = other) ∧
      (∀ slot ∈ inner.freeIndices, ¬ ∃ key, inner.index.lookup key = some slot) ∧
      (∀ slot, slot < inner.entries.length ↔
        slot ∈ inner.freeIndices ∨ ∃ key, inner.index.lookup key = some slot) ∧
      IsGreatest {count | ∃ before after earlier given, calls = before ++ after ∧
          attempt call new before = .ok (earlier, given) ∧ count = earlier.liveCount}
        inner.entries.length := by
  obtain ⟨inner, attempted, ⟨nodes, represents, -⟩, slots⟩ := attempt_call calls
  refine ⟨inner, _, attempted, represents.freeNodup, ?_, ?_, ?_, ?_⟩
  · intro key other slot found foundOther
    have sameNode := List.inj_on_of_nodup_map represents.slotsNodup
      ((represents.indexed key slot).mp found) ((represents.indexed other slot).mp foundOther) rfl
    exact congrArg Prod.fst sameNode
  · intro slot free
    rw [← represents.mem_slots_iff]
    exact represents.freeApart slot free
  · intro slot
    rw [represents.covers, represents.mem_slots_iff, or_comm]
  · have peak := isGreatest_run_peakStep List.length recencyStep [] calls
    have sameCounts : {count | ∃ before after earlier given, calls = before ++ after ∧
          attempt call new before = .ok (earlier, given) ∧ count = earlier.liveCount} =
        {count | ∃ before after, calls = before ++ after ∧
          count = (run (next recencyStep) [] before).length} := by
      ext count
      constructor
      · rintro ⟨before, after, earlier, given, split, ran, rfl⟩
        exact ⟨before, after, split, liveCount_of_attempt ran⟩
      · rintro ⟨before, after, split, rfl⟩
        obtain ⟨earlier, ran, -⟩ := attempt_call before
        exact ⟨before, after, earlier, _, split, ran, (liveCount_of_attempt ran).symm⟩
    rw [sameCounts, slots]
    exact peak

end LruInner

end CmxRdma.BlockStore
