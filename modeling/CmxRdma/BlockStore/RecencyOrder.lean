import CmxRdma.BlockStore.EvictionOrder
import CmxRdma.Lib.Transition

/-!
Contract: call sequences on `LruPolicy` against a duplicate-free list.

Owns: the policy's calls as steps that can panic, the list machine with move to
front, erase and remove last, the two walks over the slab's links, and what the
history of calls says about the live keys and their order.

Does not own: what one call does to a represented slab; see `EvictionOrder`.
-/

namespace CmxRdma.BlockStore

open CmxRdma.Lib.Transition

/-- A call on `LruPolicy`. -/
inductive LruCall where
  | touch (key : PrefixHash)
  | remove (key : PrefixHash)
  | evictLru
deriving DecidableEq

/-- What a call returns: nothing, or the victim of an eviction. -/
inductive LruAnswer where
  | done
  | evicted (victim : Option PrefixHash)
deriving DecidableEq

/-- A call on the slab under the mutex. -/
def LruInner.call (inner : LruInner) : LruCall → Except Panic (LruInner × LruAnswer)
  | .touch key => do
      let inner ← inner.touch key
      return (inner, .done)
  | .remove key => do
      let inner ← inner.remove key
      return (inner, .done)
  | .evictLru => do
      let (victim, inner) ← inner.evictLru
      return (inner, .evicted victim)

/-- The list machine: move to front, erase, remove last. -/
def recencyStep (keys : List PrefixHash) : LruCall → List PrefixHash × LruAnswer
  | .touch key => (key :: keys.erase key, .done)
  | .remove key => (keys.erase key, .done)
  | .evictLru => (keys.dropLast, .evicted keys.getLast?)

/-! ## Simulation -/

/-- The slab represents nodes with these keys. -/
def LruInner.Shows (inner : LruInner) (keys : List PrefixHash) : Prop :=
  ∃ nodes, inner.Represents nodes ∧ nodes.map Prod.fst = keys

/-- A call on a represented slab answers as the list machine does, and the slab grows
only to the number of live keys. -/
theorem LruInner.call_spec {inner : LruInner} {nodes : List LruNode}
    (represents : inner.Represents nodes) (call : LruCall) :
    ∃ inner' nodes',
      inner.call call = .ok (inner', (recencyStep (nodes.map Prod.fst) call).2) ∧
      inner'.Represents nodes' ∧
      nodes'.map Prod.fst = (recencyStep (nodes.map Prod.fst) call).1 ∧
      inner'.entries.length = max inner.entries.length nodes'.length := by
  cases call with
  | touch key =>
      obtain ⟨inner', nodes', touched, represents', order, grown⟩ := touch_spec represents key
      refine ⟨inner', nodes', ?_, represents', order, grown⟩
      simp only [LruInner.call, touched, bind, Except.bind]
      rfl
  | remove key =>
      obtain ⟨inner', nodes', removed, represents', order, grown⟩ := remove_spec represents key
      refine ⟨inner', nodes', ?_, represents', order, grown⟩
      simp only [LruInner.call, removed, bind, Except.bind]
      rfl
  | evictLru =>
      obtain ⟨inner', nodes', evicted, represents', order, grown⟩ := evictLru_spec represents
      refine ⟨inner', nodes', ?_, represents', order, grown⟩
      simp only [LruInner.call, evicted, bind, Except.bind]
      rfl

theorem LruInner.call_simulates (inner : LruInner) (keys : List PrefixHash) (call : LruCall)
    (shows : inner.Shows keys) :
    ∃ inner', inner.call call = .ok (inner', (recencyStep keys call).2) ∧
      inner'.Shows (recencyStep keys call).1 := by
  obtain ⟨nodes, represents, rfl⟩ := shows
  obtain ⟨inner', nodes', called, represents', order, -⟩ := call_spec represents call
  exact ⟨inner', called, nodes', represents', order⟩

/-! ## The two walks -/

/-- Following a link from a slot meets exactly `nodes`, each in the slab, and then
ends. -/
inductive Follows (link : LruEntry → Option Nat) (entries : List LruEntry) :
    Option Nat → List LruNode → Prop where
  | stop : Follows link entries none []
  | visit {slot : Nat} {entry : LruEntry} {rest : List LruNode}
      (inSlab : entries[slot]? = some entry)
      (onwards : Follows link entries (link entry) rest) :
      Follows link entries (some slot) ((entry.prefixHash, slot) :: rest)

theorem Segment.follows_next {entries : List LruEntry} {prev : Option Nat} {nodes : List LruNode}
    (segment : Segment entries none prev nodes) :
    Follows LruEntry.next entries (headSlot none nodes) nodes := by
  induction nodes generalizing prev with
  | nil => exact .stop
  | cons node rest inductionHypothesis => exact .visit segment.1 (inductionHypothesis segment.2)

theorem Segment.follows_prev {entries : List LruEntry} {next : Option Nat} {nodes : List LruNode}
    (segment : Segment entries next none nodes) :
    Follows LruEntry.prev entries (lastSlot none nodes) nodes.reverse := by
  induction nodes using List.reverseRecOn generalizing next with
  | nil => exact .stop
  | append_singleton front node inductionHypothesis =>
      obtain ⟨before, inSlab, -⟩ := segment_append.mp segment
      rw [lastSlot_append, List.reverse_append]
      exact .visit inSlab (inductionHypothesis before)

/-! ## What the history says -/

/-- Some touch of `recent` has no touch of `older` after it. -/
def TouchedAfter (calls : List LruCall) (recent older : PrefixHash) : Prop :=
  ∃ before after, calls = before ++ .touch recent :: after ∧ .touch older ∉ after

theorem TouchedAfter.concat {calls : List LruCall} {recent older : PrefixHash}
    (touchedAfter : TouchedAfter calls recent older) {call : LruCall}
    (other : call ≠ .touch older) : TouchedAfter (calls ++ [call]) recent older := by
  obtain ⟨before, after, rfl, untouched⟩ := touchedAfter
  refine ⟨before, after ++ [call], by simp, ?_⟩
  simp only [List.mem_append, List.mem_singleton, not_or]
  exact ⟨untouched, other.symm⟩

/-- A call other than a touch leaves a part of the list in its order. -/
theorem pairwise_touchedAfter_of_sublist {calls : List LruCall} {keys kept : List PrefixHash}
    (ordered : keys.Pairwise (TouchedAfter calls)) (sublist : kept.Sublist keys) {call : LruCall}
    (spared : ∀ key ∈ kept, call ≠ .touch key) :
    kept.Pairwise (TouchedAfter (calls ++ [call])) := by
  refine (ordered.sublist sublist).imp_of_mem ?_
  intro recent older _ member touchedAfter
  exact touchedAfter.concat (spared older member)

/-- The machine's list is duplicate-free and in order of last touch. -/
theorem recency_ordered (calls : List LruCall) :
    (run (next recencyStep) [] calls).Nodup ∧
      (run (next recencyStep) [] calls).Pairwise (TouchedAfter calls) := by
  induction calls using List.reverseRecOn with
  | nil => exact ⟨List.nodup_nil, List.Pairwise.nil⟩
  | append_singleton calls call inductionHypothesis =>
      obtain ⟨nodup, ordered⟩ := inductionHypothesis
      rw [run_append]
      generalize run (next recencyStep) [] calls = keys at nodup ordered
      have sublist : ∀ key, (keys.erase key).Sublist keys := fun key => List.erase_sublist
      cases call with
      | touch key =>
          have absent : key ∉ keys.erase key := nodup.not_mem_erase
          refine ⟨List.nodup_cons.mpr ⟨absent, nodup.erase key⟩, List.pairwise_cons.mpr ⟨?_, ?_⟩⟩
          · intro older _
            exact ⟨calls, [], rfl, by simp⟩
          · refine pairwise_touchedAfter_of_sublist ordered (sublist key) ?_
            rintro other member same
            cases same
            exact absent member
      | remove key =>
          exact ⟨nodup.erase key,
            pairwise_touchedAfter_of_sublist ordered (sublist key) (by simp)⟩
      | evictLru =>
          have shorter := List.dropLast_sublist keys
          exact ⟨nodup.sublist shorter,
            pairwise_touchedAfter_of_sublist ordered shorter (by simp)⟩

/-- The key was touched and has since been neither removed nor handed out as a
victim. -/
def LiveAfter (calls : List LruCall) (answers : List LruAnswer) (key : PrefixHash) : Prop :=
  ∃ before after, calls = before ++ .touch key :: after ∧ .remove key ∉ after ∧
    .evicted (some key) ∉ answers.drop (before.length + 1)

theorem liveAfter_concat {calls : List LruCall} {answers : List LruAnswer}
    (sameLength : answers.length = calls.length) (call : LruCall) (answer : LruAnswer)
    (key : PrefixHash) :
    LiveAfter (calls ++ [call]) (answers ++ [answer]) key ↔
      call = .touch key ∨
        LiveAfter calls answers key ∧ call ≠ .remove key ∧ answer ≠ .evicted (some key) := by
  have dropped : ∀ before after, calls = before ++ .touch key :: after →
      (answers ++ [answer]).drop (before.length + 1) =
        answers.drop (before.length + 1) ++ [answer] := by
    intro before after split
    apply List.drop_append_of_le_length
    rw [sameLength, split, List.length_append, List.length_cons]
    omega
  constructor
  · rintro ⟨before, after, split, notRemoved, notEvicted⟩
    -- the touch is the last call, or it stands among the earlier ones
    rcases List.eq_nil_or_concat after with rfl | ⟨earlier, last, rfl⟩
    · exact Or.inl (List.head_eq_of_cons_eq (List.append_inj' split rfl).2)
    · rw [List.concat_eq_append] at split notRemoved
      have regrouped : calls ++ [call] = (before ++ .touch key :: earlier) ++ [last] := by
        rw [split, List.append_assoc, List.cons_append]
      obtain ⟨sameCalls, sameCall⟩ := List.append_inj' regrouped rfl
      cases sameCall
      rw [dropped before earlier sameCalls] at notEvicted
      simp only [List.mem_append, List.mem_singleton, not_or] at notRemoved notEvicted
      exact Or.inr ⟨⟨before, earlier, sameCalls, notRemoved.1, notEvicted.1⟩,
        fun same => notRemoved.2 same.symm, fun same => notEvicted.2 same.symm⟩
  · rintro (rfl | ⟨⟨before, after, split, notRemoved, notEvicted⟩, kept, spared⟩)
    · refine ⟨calls, [], rfl, by simp, ?_⟩
      rw [List.drop_of_length_le (by simp [sameLength])]
      simp
    · refine ⟨before, after ++ [call], by simp [split], ?_, ?_⟩
      · simp only [List.mem_append, List.mem_singleton, not_or]
        exact ⟨notRemoved, kept.symm⟩
      · rw [dropped before after split]
        simp only [List.mem_append, List.mem_singleton, not_or]
        exact ⟨notEvicted, spared.symm⟩

theorem mem_recencyStep {keys : List PrefixHash} (nodup : keys.Nodup) (call : LruCall)
    (key : PrefixHash) :
    key ∈ (recencyStep keys call).1 ↔
      call = .touch key ∨
        key ∈ keys ∧ call ≠ .remove key ∧ (recencyStep keys call).2 ≠ .evicted (some key) := by
  cases call with
  | touch other =>
      by_cases same : key = other
      · simp [recencyStep, same]
      · simp [recencyStep, same, Ne.symm same, nodup.mem_erase_iff]
  | remove other =>
      simp only [recencyStep, nodup.mem_erase_iff]
      simp [eq_comm, and_comm]
  | evictLru =>
      rcases List.eq_nil_or_concat keys with rfl | ⟨front, last, rfl⟩
      · simp [recencyStep]
      · rw [List.concat_eq_append] at nodup ⊢
        have apart : last ∉ front := by
          intro member
          exact (List.nodup_append.mp nodup).2.2 last member last (by simp) rfl
        simp only [recencyStep, List.dropLast_concat, List.getLast?_concat]
        grind

/-- The machine's list holds exactly the live keys. -/
theorem mem_recency_iff (calls : List LruCall) (key : PrefixHash) :
    key ∈ run (next recencyStep) [] calls ↔
      LiveAfter calls (outputs recencyStep [] calls) key := by
  induction calls using List.reverseRecOn with
  | nil => simp [LiveAfter]
  | append_singleton calls call inductionHypothesis =>
      rw [run_append, outputs_append, outputs, outputs,
        liveAfter_concat (outputs_length recencyStep [] calls), ← inductionHypothesis]
      exact mem_recencyStep (recency_ordered calls).1 call key

/-! ## The policy is the list -/

/-- Every sequence of calls on a new policy runs without a panic and answers as the
list machine does. The list is duplicate-free, holds the live keys, most recently
touched first; `next` from the head visits its nodes in order, `prev` from the tail
in reverse, the key index holds exactly them, and the next victim is its last key. -/
theorem policy_is_recency_list (calls : List LruCall) :
    let keys := run (next recencyStep) [] calls
    let answers := outputs recencyStep [] calls
    keys.Nodup ∧ (∀ key, key ∈ keys ↔ LiveAfter calls answers key) ∧
      keys.Pairwise (TouchedAfter calls) ∧
      ∃ inner nodes, attempt LruInner.call LruInner.new calls = .ok (inner, answers) ∧
        nodes.map Prod.fst = keys ∧
        Follows LruEntry.next inner.entries inner.head nodes ∧
        Follows LruEntry.prev inner.entries inner.tail nodes.reverse ∧
        (∀ key slot, inner.index.lookup key = some slot ↔ (key, slot) ∈ nodes) ∧
        ∃ after, inner.evictLru = .ok (keys.getLast?, after) := by
  intro keys answers
  have initial : LruInner.new.Shows [] := ⟨[], LruInner.new_represents, rfl⟩
  obtain ⟨inner, attempted, nodes, represents, order⟩ :=
    attempt_of_simulation LruInner.call_simulates initial calls
  obtain ⟨after, -, evicted, -⟩ := LruInner.evictLru_spec represents
  obtain ⟨nodup, ordered⟩ := recency_ordered calls
  refine ⟨nodup, mem_recency_iff calls, ordered, inner, nodes, attempted, order, ?_, ?_,
    represents.indexed, after, ?_⟩
  · rw [represents.head]
    exact represents.segment.follows_next
  · rw [represents.tail]
    exact represents.segment.follows_prev
  · rw [order] at evicted
    exact evicted

end CmxRdma.BlockStore
