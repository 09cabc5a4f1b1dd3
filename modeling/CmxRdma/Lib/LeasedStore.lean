import CmxRdma.Lib.FiniteMap
import CmxRdma.Lib.Transition

/-!
Contract: a store of records some of which are bound to leases.

Owns: the store with the invariant that a record's lease is live, its changes, what one
change leaves under a key, and that a lease that has ended never comes back.

Does not own: who asks for a change, and when a lease runs out.
-/

namespace CmxRdma.Lib.LeasedStore

open CmxRdma.Lib.FiniteMap
open CmxRdma.Lib.Transition

universe u v

variable {Key : Type u} {Value : Type v}

/-- A value, with the lease it is bound to if there is one. -/
structure Leased (Value : Type v) where
  value : Value
  lease : Option Nat
deriving DecidableEq

/-- A record outlives every lease but the one it is bound to. -/
def unlessBound (lease : Nat) (record : Leased Value) : Option (Leased Value) :=
  if record.lease = some lease then none else some record

theorem unlessBound_eq_some {lease : Nat} {record kept : Leased Value} :
    unlessBound lease record = some kept ↔ record = kept ∧ kept.lease ≠ some lease := by
  unfold unlessBound
  split_ifs with bound
  · refine iff_of_false nofun ?_
    rintro ⟨rfl, other⟩
    exact other bound
  · rw [Option.some_inj]
    constructor
    · rintro rfl
      exact ⟨rfl, bound⟩
    · exact And.left

variable [DecidableEq Key]

/-- Leases are numbered as they are granted, so a number is never given out twice. -/
structure Store (Key : Type u) (Value : Type v) [DecidableEq Key] where
  records : AList fun _ : Key => Leased Value
  live : List Nat
  granted : Nat
  liveGranted : ∀ lease ∈ live, lease < granted
  boundLive : ∀ key record lease, records.lookup key = some record → record.lease = some lease →
    lease ∈ live

inductive Change (Key : Type u) (Value : Type v) where
  | grant
  | put (key : Key) (record : Leased Value)
  | finish (lease : Nat)
deriving DecidableEq

namespace Store

def empty : Store Key Value where
  records := ∅
  live := []
  granted := 0
  liveGranted := by simp
  boundLive := by simp

/-- The keys whose records are bound to a lease. -/
def boundTo (store : Store Key Value) (lease : Nat) : List Key :=
  (store.records.entries.filter fun entry => entry.2.lease = some lease).map Sigma.fst

theorem mem_boundTo {store : Store Key Value} {lease : Nat} {key : Key} :
    key ∈ store.boundTo lease ↔
      ∃ record, store.records.lookup key = some record ∧ record.lease = some lease := by
  rw [boundTo, List.mem_map]
  constructor
  · rintro ⟨⟨_, record⟩, member, rfl⟩
    obtain ⟨inStore, bound⟩ := List.mem_filter.mp member
    exact ⟨record, AList.mem_lookup_iff.mpr inStore, of_decide_eq_true bound⟩
  · rintro ⟨record, found, bound⟩
    exact ⟨⟨key, record⟩,
      List.mem_filter.mpr ⟨AList.mem_lookup_iff.mp found, decide_eq_true bound⟩, rfl⟩

/-- A put is refused if the lease it asks for is not live. -/
def Accepts (store : Store Key Value) (record : Leased Value) : Prop :=
  ∀ lease ∈ record.lease, lease ∈ store.live

instance (store : Store Key Value) (record : Leased Value) : Decidable (store.Accepts record) :=
  inferInstanceAs (Decidable (∀ lease ∈ record.lease, lease ∈ store.live))

def grant (store : Store Key Value) : Store Key Value where
  records := store.records
  live := store.granted :: store.live
  granted := store.granted + 1
  liveGranted := by
    intro lease member
    rcases List.mem_cons.mp member with rfl | earlier
    · exact Nat.lt_succ_self _
    · exact Nat.lt_succ_of_lt (store.liveGranted lease earlier)
  boundLive := fun key record lease found bound =>
    List.mem_cons_of_mem _ (store.boundLive key record lease found bound)

def put (store : Store Key Value) (key : Key) (record : Leased Value)
    (accepted : store.Accepts record) : Store Key Value where
  records := store.records.insert key record
  live := store.live
  granted := store.granted
  liveGranted := store.liveGranted
  boundLive := by
    intro other found lease lookedUp bound
    by_cases same : other = key
    · rw [same, AList.lookup_insert, Option.some_inj] at lookedUp
      exact accepted lease (lookedUp ▸ bound)
    · rw [AList.lookup_insert_ne same] at lookedUp
      exact store.boundLive other found lease lookedUp bound

/-- A lease that ends takes the records bound to it along. -/
def finish (store : Store Key Value) (lease : Nat) : Store Key Value where
  records := filterMapValues (unlessBound lease) store.records
  live := store.live.filter (· ≠ lease)
  granted := store.granted
  liveGranted := fun other member => store.liveGranted other (List.mem_of_mem_filter member)
  boundLive := by
    intro key record other found bound
    rw [lookup_filterMapValues, Option.bind_eq_some_iff] at found
    obtain ⟨old, lookedUp, kept⟩ := found
    obtain ⟨rfl, otherLease⟩ := unlessBound_eq_some.mp kept
    refine List.mem_filter.mpr ⟨store.boundLive key old other lookedUp bound, decide_eq_true ?_⟩
    rintro rfl
    exact otherLease bound

def apply (store : Store Key Value) : Change Key Value → Store Key Value
  | .grant => store.grant
  | .put key record =>
      if accepted : store.Accepts record then store.put key record accepted else store
  | .finish lease => store.finish lease

/-- The changes after which a record is no longer the one under its key. -/
def Displaces (store : Store Key Value) (key : Key) (record : Leased Value) :
    Change Key Value → Prop
  | .grant => False
  | .put other new => other = key ∧ store.Accepts new
  | .finish lease => record.lease = some lease

instance (store : Store Key Value) (key : Key) (record : Leased Value)
    (change : Change Key Value) : Decidable (store.Displaces key record change) :=
  match change with
  | .grant => inferInstanceAs (Decidable False)
  | .put _ _ => inferInstanceAs (Decidable (_ ∧ _))
  | .finish _ => inferInstanceAs (Decidable (_ = _))

/-- A change leaves a record under a key exactly when it puts the record there, or the
record was there and is not displaced. -/
theorem lookup_apply (store : Store Key Value) (key : Key) (record : Leased Value)
    (change : Change Key Value) :
    (store.apply change).records.lookup key = some record ↔
      change = .put key record ∧ store.Accepts record ∨
        store.records.lookup key = some record ∧ ¬ store.Displaces key record change := by
  cases change with
  | grant => simp [apply, grant, Displaces]
  | put other new =>
      simp only [apply, Displaces]
      split_ifs with accepted
      · by_cases same : other = key
        · subst same
          simp only [put, AList.lookup_insert, Option.some.injEq, Change.put.injEq, true_and,
            accepted, and_true, not_true, and_false, or_false]
          constructor
          · rintro rfl
            exact ⟨rfl, accepted⟩
          · exact And.left
        · simp [put, same, AList.lookup_insert_ne (Ne.symm same)]
      · simp only [accepted, and_false, not_false_iff, and_true]
        constructor
        · exact Or.inr
        · rintro (⟨placed, refuted⟩ | old)
          · obtain ⟨-, rfl⟩ := Change.put.inj placed
            exact absurd refuted accepted
          · exact old
  | finish lease =>
      simp only [apply, finish, lookup_filterMapValues, Option.bind_eq_some_iff,
        unlessBound_eq_some, Displaces, reduceCtorEq, false_and, false_or]
      constructor
      · rintro ⟨old, found, rfl, other⟩
        exact ⟨found, other⟩
      · rintro ⟨found, other⟩
        exact ⟨record, found, rfl, other⟩

theorem granted_le_apply (store : Store Key Value) (change : Change Key Value) :
    store.granted ≤ (store.apply change).granted := by
  cases change with
  | grant => exact Nat.le_succ _
  | put key record =>
      simp only [apply]
      split_ifs <;> exact Nat.le_refl _
  | finish lease => exact Nat.le_refl _

/-- The lease was granted and is no longer live. -/
def Ended (store : Store Key Value) (lease : Nat) : Prop :=
  lease < store.granted ∧ lease ∉ store.live

instance (store : Store Key Value) (lease : Nat) : Decidable (store.Ended lease) :=
  inferInstanceAs (Decidable (_ ∧ _))

theorem Ended.apply {store : Store Key Value} {lease : Nat} (ended : store.Ended lease)
    (change : Change Key Value) : (store.apply change).Ended lease := by
  refine ⟨ended.1.trans_le (store.granted_le_apply change), ?_⟩
  cases change with
  | grant =>
      rintro (_ | ⟨_, live⟩)
      · exact Nat.lt_irrefl _ ended.1
      · exact ended.2 live
  | put key record =>
      simp only [Store.apply]
      split_ifs <;> exact ended.2
  | finish other => exact fun live => ended.2 (List.mem_of_mem_filter live)

theorem ended_finish {store : Store Key Value} {lease : Nat} (known : lease < store.granted) :
    (store.apply (.finish lease)).Ended lease :=
  ⟨known, fun live => of_decide_eq_true (List.mem_filter.mp live).2 rfl⟩

/-- Nothing is bound to a lease that has ended. -/
theorem Ended.not_bound {store : Store Key Value} {lease : Nat} (ended : store.Ended lease)
    {key : Key} {record : Leased Value} (found : store.records.lookup key = some record) :
    record.lease ≠ some lease :=
  fun bound => ended.2 (store.boundLive key record lease found bound)

/-- A put under a lease that has ended is refused. -/
theorem Ended.not_accepts {store : Store Key Value} {lease : Nat} (ended : store.Ended lease)
    {record : Leased Value} (bound : record.lease = some lease) : ¬ store.Accepts record :=
  fun accepts => ended.2 (accepts lease bound)

end Store

end CmxRdma.Lib.LeasedStore
