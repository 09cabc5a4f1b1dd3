import CmxRdma.BlockStore.Eviction

/-!
Contract: the slab of `Eviction` is a recency list.

Owns: the chain predicate that ties slab entries to a list of nodes, its
preservation by `unlink` and `push_front`, the representation invariant with
the key index and the free slots, and the policy type that carries it. On a
represented slab no access panics; `touch` moves a key to the front, `remove`
erases it, `evict_lru` takes the last.

Does not own: the block map the policy is used with.
-/

namespace CmxRdma.BlockStore

/-- A live key and its slab slot. -/
abbrev LruNode := PrefixHash × Nat

/-- The slot a segment starts at, or what follows it when it is empty. -/
def headSlot (next : Option Nat) : List LruNode → Option Nat
  | [] => next
  | node :: _ => some node.2

/-- The slot a segment ends at, or what precedes it when it is empty. -/
def lastSlot (prev : Option Nat) : List LruNode → Option Nat
  | [] => prev
  | node :: rest => lastSlot (some node.2) rest

/-- The slab links `nodes` in order, between `prev` and `next`. -/
def Segment (entries : List LruEntry) (next : Option Nat) :
    Option Nat → List LruNode → Prop
  | _, [] => True
  | prev, node :: rest =>
      entries[node.2]? = some ⟨node.1, prev, headSlot next rest⟩ ∧
        Segment entries next (some node.2) rest

/-! ## Segments -/

theorem headSlot_append (next : Option Nat) (first second : List LruNode) :
    headSlot next (first ++ second) = headSlot (headSlot next second) first := by
  cases first <;> rfl

theorem lastSlot_append (prev : Option Nat) (first second : List LruNode) :
    lastSlot prev (first ++ second) = lastSlot (lastSlot prev first) second := by
  induction first generalizing prev with
  | nil => rfl
  | cons node rest inductionHypothesis => exact inductionHypothesis _

theorem lastSlot_cons_ne_none (prev : Option Nat) (node : LruNode) (rest : List LruNode) :
    lastSlot prev (node :: rest) ≠ none := by
  induction rest generalizing prev node with
  | nil => exact Option.some_ne_none node.2
  | cons next rest inductionHypothesis => exact inductionHypothesis (some node.2) next

theorem segment_append {entries : List LruEntry} {prev next : Option Nat}
    {first second : List LruNode} :
    Segment entries next prev (first ++ second) ↔
      Segment entries (headSlot next second) prev first ∧
        Segment entries next (lastSlot prev first) second := by
  induction first generalizing prev with
  | nil => simp [Segment, lastSlot]
  | cons node rest inductionHypothesis =>
      simp only [List.cons_append, Segment, headSlot_append, lastSlot, inductionHypothesis,
        and_assoc]

/-- A segment only sees its own slots. -/
theorem Segment.congr {entries entries' : List LruEntry} {prev next : Option Nat}
    {nodes : List LruNode} (segment : Segment entries next prev nodes)
    (agree : ∀ node ∈ nodes, entries'[node.2]? = entries[node.2]?) :
    Segment entries' next prev nodes := by
  induction nodes generalizing prev with
  | nil => trivial
  | cons node rest inductionHypothesis =>
      refine ⟨?_, inductionHypothesis segment.2 fun other member => agree other (by simp [member])⟩
      rw [agree node (by simp)]
      exact segment.1

theorem Segment.modify_of_notMem {entries : List LruEntry} {prev next : Option Nat}
    {nodes : List LruNode} {slot : Nat} (change : LruEntry → LruEntry)
    (segment : Segment entries next prev nodes) (apart : slot ∉ nodes.map Prod.snd) :
    Segment (entries.modify slot change) next prev nodes := by
  apply segment.congr
  intro node member
  apply List.getElem?_modify_ne
  intro same
  exact apart (same ▸ List.mem_map_of_mem member)

/-- Every node of a segment is a slab entry with its key. -/
theorem Segment.getElem?_of_mem {entries : List LruEntry} {prev next : Option Nat}
    {nodes : List LruNode} (segment : Segment entries next prev nodes) {node : LruNode}
    (member : node ∈ nodes) :
    ∃ entry, entries[node.2]? = some entry ∧ entry.prefixHash = node.1 := by
  induction nodes generalizing prev with
  | nil => simp at member
  | cons first rest inductionHypothesis =>
      rcases List.mem_cons.mp member with isFirst | inRest
      · exact ⟨_, isFirst ▸ segment.1, by rw [isFirst]⟩
      · exact inductionHypothesis segment.2 inRest

/-- Redirecting the first node's `prev`. -/
theorem Segment.setPrev_head {entries : List LruEntry} {prev next : Option Nat}
    {node : LruNode} {rest : List LruNode} (segment : Segment entries next prev (node :: rest))
    (apart : node.2 ∉ rest.map Prod.snd) (newPrev : Option Nat) :
    Segment (entries.modify node.2 fun entry => { entry with prev := newPrev }) next newPrev
      (node :: rest) := by
  refine ⟨?_, segment.2.modify_of_notMem _ apart⟩
  simp [segment.1]

/-- Redirecting the last node's `next`. -/
theorem Segment.setNext_last {entries : List LruEntry} {prev next : Option Nat}
    {node : LruNode} {front : List LruNode}
    (segment : Segment entries next prev (front ++ [node]))
    (apart : node.2 ∉ front.map Prod.snd) (newNext : Option Nat) :
    Segment (entries.modify node.2 fun entry => { entry with next := newNext }) newNext prev
      (front ++ [node]) := by
  rw [segment_append] at segment ⊢
  refine ⟨segment.1.modify_of_notMem _ apart, ?_, trivial⟩
  simp [segment.2.1, headSlot]

/-! ## Chains: the whole list between its two ends -/

/-- The slab's list, from `head` to `tail`, is exactly `nodes`. -/
structure LruInner.Chain (inner : LruInner) (nodes : List LruNode) : Prop where
  segment : Segment inner.entries none none nodes
  head : inner.head = headSlot none nodes
  tail : inner.tail = lastSlot none nodes
  slotsNodup : (nodes.map Prod.snd).Nodup

namespace LruInner

theorem setPrev_eq_ok (inner : LruInner) {slot : Nat} (inside : slot < inner.entries.length)
    (prev : Option Nat) :
    inner.setPrev slot prev = .ok { inner with
      entries := inner.entries.modify slot fun entry => { entry with prev := prev } } := by
  simp [setPrev, inside]

theorem setNext_eq_ok (inner : LruInner) {slot : Nat} (inside : slot < inner.entries.length)
    (next : Option Nat) :
    inner.setNext slot next = .ok { inner with
      entries := inner.entries.modify slot fun entry => { entry with next := next } } := by
  simp [setNext, inside]

/-- Setting both links of a slot, `prev` first. -/
theorem setLinks_eq_ok (inner : LruInner) {slot : Nat} (inside : slot < inner.entries.length)
    (prev next : Option Nat) :
    (inner.setPrev slot prev >>= fun inner => inner.setNext slot next) = .ok { inner with
      entries := inner.entries.modify slot fun entry =>
        { entry with prev := prev, next := next } } := by
  simp only [setPrev_eq_ok inner inside, bind, Except.bind]
  rw [setNext_eq_ok _ (by simpa using inside), List.modify_modify_eq]
  rfl

theorem pushFront_eq_ok_of_empty {inner : LruInner} {slot : Nat}
    (inside : slot < inner.entries.length) (noHead : inner.head = none)
    (noTail : inner.tail = none) :
    inner.pushFront slot = .ok { inner with
      entries := inner.entries.modify slot fun entry => { entry with prev := none, next := none }
      head := some slot
      tail := some slot } := by
  simp only [pushFront, setPrev_eq_ok inner inside, bind, Except.bind, noHead]
  rw [setNext_eq_ok _ (by simpa using inside), List.modify_modify_eq]
  simp only [noTail]
  rfl

theorem pushFront_eq_ok_of_head {inner : LruInner} {slot oldHead : Nat}
    (inside : slot < inner.entries.length) (headEq : inner.head = some oldHead)
    (headInside : oldHead < inner.entries.length) (tailed : inner.tail ≠ none) :
    inner.pushFront slot = .ok { inner with
      entries := (inner.entries.modify slot fun entry =>
          { entry with prev := none, next := some oldHead }).modify oldHead fun entry =>
            { entry with prev := some slot }
      head := some slot } := by
  simp only [pushFront, setPrev_eq_ok inner inside, bind, Except.bind, headEq]
  rw [setNext_eq_ok _ (by simpa using inside), List.modify_modify_eq]
  simp only
  rw [setPrev_eq_ok _ (by simpa using headInside)]
  simp only [Option.isNone_iff_eq_none, tailed, if_false]
  rfl

/-- What a slab operation on the list leaves alone. -/
structure SameFrame (before after : LruInner) : Prop where
  length : after.entries.length = before.entries.length
  freeIndices : after.freeIndices = before.freeIndices
  index : after.index = before.index

theorem SameFrame.trans {first second third : LruInner} (left : SameFrame first second)
    (right : SameFrame second third) : SameFrame first third where
  length := right.length.trans left.length
  freeIndices := right.freeIndices.trans left.freeIndices
  index := right.index.trans left.index

/-- First half of `unlink`: the front segment now leads to what followed the
node, and the rest of the slab is untouched. -/
theorem bypassForward_spec {inner : LruInner} {front : List LruNode} {slot : Nat}
    (next : Option Nat) (segment : Segment inner.entries (some slot) none front)
    (head : inner.head = headSlot (some slot) front)
    (nodup : (front.map Prod.snd).Nodup) :
    ∃ inner', inner.bypassForward (lastSlot none front) next = .ok inner' ∧
      Segment inner'.entries next none front ∧ inner'.head = headSlot next front ∧
      inner'.tail = inner.tail ∧ SameFrame inner inner' ∧
      ∀ other, other ∉ front.map Prod.snd → inner'.entries[other]? = inner.entries[other]? := by
  -- the last node of the front is the one whose `next` changes
  rcases List.eq_nil_or_concat front with empty | ⟨earlier, last, split⟩
  · subst empty
    exact ⟨_, rfl, trivial, rfl, rfl, ⟨rfl, rfl, rfl⟩, fun _ _ => rfl⟩
  · rw [List.concat_eq_append] at split
    subst split
    simp only [List.map_append, List.map_cons, List.map_nil, List.nodup_append] at nodup
    have apart : last.2 ∉ earlier.map Prod.snd := by
      intro member
      exact nodup.2.2 _ member _ (by simp) rfl
    have inside : last.2 < inner.entries.length := by
      obtain ⟨entry, found, -⟩ := segment.getElem?_of_mem (show last ∈ earlier ++ [last] by simp)
      exact (List.getElem?_eq_some_iff.mp found).1
    have endsAt : lastSlot none (earlier ++ [last]) = some last.2 := by
      simp [lastSlot_append, lastSlot]
    rw [endsAt]
    refine ⟨_, setNext_eq_ok _ inside next, segment.setNext_last apart next, ?_, rfl,
      ⟨by simp, rfl, rfl⟩, ?_⟩
    · rw [head]
      cases earlier <;> rfl
    · intro other outside
      apply List.getElem?_modify_ne
      intro same
      exact outside (by simp [← same])

/-- Second half of `unlink`: the back segment now starts from what preceded the
node. -/
theorem bypassBackward_spec {inner : LruInner} {back : List LruNode} {slot : Nat}
    (prev : Option Nat) (segment : Segment inner.entries none (some slot) back)
    (tail : inner.tail = lastSlot (some slot) back)
    (nodup : (back.map Prod.snd).Nodup) :
    ∃ inner', inner.bypassBackward prev (headSlot none back) = .ok inner' ∧
      Segment inner'.entries none prev back ∧ inner'.tail = lastSlot prev back ∧
      inner'.head = inner.head ∧ SameFrame inner inner' ∧
      ∀ other, other ∉ back.map Prod.snd → inner'.entries[other]? = inner.entries[other]? := by
  cases back with
  | nil => exact ⟨_, rfl, trivial, rfl, rfl, ⟨rfl, rfl, rfl⟩, fun _ _ => rfl⟩
  | cons first rest =>
      have apart : first.2 ∉ rest.map Prod.snd := (List.nodup_cons.mp nodup).1
      have inside : first.2 < inner.entries.length :=
        (List.getElem?_eq_some_iff.mp segment.1).1
      refine ⟨_, setPrev_eq_ok _ inside prev, segment.setPrev_head apart prev, ?_, rfl,
        ⟨by simp, rfl, rfl⟩, ?_⟩
      · rw [tail]
        rfl
      · intro other outside
        apply List.getElem?_modify_ne
        intro same
        exact outside (by simp [← same])

/-- `unlink` takes one node out of the chain and leaves its entry detached. -/
theorem unlink_spec {inner : LruInner} {front back : List LruNode} {node : LruNode}
    (chain : inner.Chain (front ++ node :: back)) :
    ∃ inner', inner.unlink node.2 = .ok inner' ∧ inner'.Chain (front ++ back) ∧
      SameFrame inner inner' ∧ inner'.entries[node.2]? = some ⟨node.1, none, none⟩ := by
  have nodup := chain.slotsNodup
  simp only [List.map_append, List.map_cons, List.nodup_append, List.nodup_cons,
    List.mem_cons] at nodup
  obtain ⟨frontNodup, ⟨notInBack, backNodup⟩, apart⟩ := nodup
  have notInFront : node.2 ∉ front.map Prod.snd := fun member => apart _ member _ (Or.inl rfl) rfl
  obtain ⟨frontSegment, entryEq, backSegment⟩ := segment_append.mp chain.segment
  have inside : node.2 < inner.entries.length := (List.getElem?_eq_some_iff.mp entryEq).1
  have headEq := chain.head
  rw [headSlot_append] at headEq
  obtain ⟨middle, forward, frontRelinked, middleHead, middleTail, middleFrame, middleSame⟩ :=
    bypassForward_spec (headSlot none back) frontSegment headEq frontNodup
  have backKept : Segment middle.entries none (some node.2) back := by
    apply backSegment.congr
    intro other member
    exact middleSame other.2 fun inFront =>
      apart _ inFront _ (Or.inr (List.mem_map_of_mem member)) rfl
  have tailEq : middle.tail = lastSlot (some node.2) back := by
    rw [middleTail, chain.tail, lastSlot_append]
    rfl
  obtain ⟨linked, backward, backRelinked, linkedTail, linkedHead, linkedFrame, linkedSame⟩ :=
    bypassBackward_spec (lastSlot none front) backKept tailEq backNodup
  have frontKept : Segment linked.entries (headSlot none back) none front := by
    apply frontRelinked.congr
    intro other member
    exact linkedSame other.2 fun inBack =>
      apart _ (List.mem_map_of_mem member) _ (Or.inr inBack) rfl
  have entryKept : linked.entries[node.2]? =
      some ⟨node.1, lastSlot none front, headSlot none back⟩ := by
    rw [linkedSame node.2 notInBack, middleSame node.2 notInFront]
    exact entryEq
  have insideLinked : node.2 < linked.entries.length := (List.getElem?_eq_some_iff.mp entryKept).1
  -- both links of the detached node are cleared last
  refine ⟨{ linked with entries := linked.entries.modify node.2 fun entry =>
    { entry with prev := none, next := none } }, ?_, ⟨?_, ?_, ?_, ?_⟩, ⟨?_, ?_, ?_⟩, ?_⟩
  · simp only [unlink, entryEq, forward, backward, bind, Except.bind]
    exact setLinks_eq_ok linked insideLinked none none
  · exact segment_append.mpr
      ⟨frontKept.modify_of_notMem _ notInFront, backRelinked.modify_of_notMem _ notInBack⟩
  · simp only [linkedHead, middleHead, headSlot_append]
  · simp only [linkedTail, lastSlot_append]
  · simp only [List.map_append, List.nodup_append]
    exact ⟨frontNodup, backNodup, fun left inFront right inBack =>
      apart left inFront right (Or.inr inBack)⟩
  · simp [linkedFrame.length, middleFrame.length]
  · exact linkedFrame.freeIndices.trans middleFrame.freeIndices
  · exact linkedFrame.index.trans middleFrame.index
  · simp [entryKept]

/-- `push_front` puts a detached entry before the chain. -/
theorem pushFront_spec {inner : LruInner} {nodes : List LruNode} {slot : Nat} {entry : LruEntry}
    (chain : inner.Chain nodes) (found : inner.entries[slot]? = some entry)
    (detached : slot ∉ nodes.map Prod.snd) :
    ∃ inner', inner.pushFront slot = .ok inner' ∧
      inner'.Chain ((entry.prefixHash, slot) :: nodes) ∧ SameFrame inner inner' := by
  have inside : slot < inner.entries.length := (List.getElem?_eq_some_iff.mp found).1
  have slotsNodup : (((entry.prefixHash, slot) :: nodes).map Prod.snd).Nodup :=
    List.nodup_cons.mpr ⟨detached, chain.slotsNodup⟩
  cases nodes with
  | nil =>
      refine ⟨_, pushFront_eq_ok_of_empty inside chain.head chain.tail,
        ⟨⟨?_, trivial⟩, rfl, rfl, slotsNodup⟩, ⟨by simp, rfl, rfl⟩⟩
      simp [found, headSlot]
  | cons first rest =>
      have differs : first.2 ≠ slot := by
        intro same
        exact detached (by simp [same])
      have headInside : first.2 < inner.entries.length :=
        (List.getElem?_eq_some_iff.mp chain.segment.1).1
      have tailed : inner.tail ≠ none := by
        rw [chain.tail]
        exact lastSlot_cons_ne_none none first rest
      refine ⟨_, pushFront_eq_ok_of_head inside chain.head headInside tailed,
        ⟨⟨?_, ?_⟩, rfl, chain.tail, slotsNodup⟩, ⟨by simp, rfl, rfl⟩⟩
      · rw [List.getElem?_modify_ne _ _ differs]
        simp [found, headSlot]
      · exact (chain.segment.modify_of_notMem _ detached).setPrev_head
          (List.nodup_cons.mp chain.slotsNodup).1 (some slot)

/-! ## The whole slab -/

/-- The slab represents `nodes`, most recent first: the list is their chain, the
key index sends each key to its slot and knows no other, and every slot is
either live or free, never both. -/
structure Represents (inner : LruInner) (nodes : List LruNode) : Prop
    extends inner.Chain nodes where
  keysNodup : (nodes.map Prod.fst).Nodup
  indexed : ∀ key slot, inner.index.lookup key = some slot ↔ (key, slot) ∈ nodes
  freeNodup : inner.freeIndices.Nodup
  freeApart : ∀ slot ∈ inner.freeIndices, slot ∉ nodes.map Prod.snd
  covers : ∀ slot, slot < inner.entries.length ↔
    slot ∈ nodes.map Prod.snd ∨ slot ∈ inner.freeIndices

theorem new_represents : LruInner.new.Represents [] where
  segment := trivial
  head := rfl
  tail := rfl
  slotsNodup := List.nodup_nil
  keysNodup := List.nodup_nil
  indexed := by simp [new]
  freeNodup := List.nodup_nil
  freeApart := by simp [new]
  covers := by simp [new]

/-- Every slot is counted once, as live or as free. -/
theorem Represents.length_eq {inner : LruInner} {nodes : List LruNode}
    (represents : inner.Represents nodes) :
    inner.entries.length = nodes.length + inner.freeIndices.length := by
  have apart : (nodes.map Prod.snd ++ inner.freeIndices).Nodup := by
    refine List.nodup_append.mpr ⟨represents.slotsNodup, represents.freeNodup, ?_⟩
    rintro slot live other free rfl
    exact represents.freeApart slot free live
  have allSlots : (List.range inner.entries.length).Perm
      (nodes.map Prod.snd ++ inner.freeIndices) := by
    refine (List.perm_ext_iff_of_nodup List.nodup_range apart).mpr fun slot => ?_
    rw [List.mem_range, represents.covers, List.mem_append]
  simpa using allSlots.length_eq

theorem Represents.length_le {inner : LruInner} {nodes : List LruNode}
    (represents : inner.Represents nodes) : nodes.length ≤ inner.entries.length := by
  rw [represents.length_eq]
  exact Nat.le_add_right _ _

/-- Reordering the chain keeps the rest of the representation. -/
theorem Represents.of_perm {inner inner' : LruInner} {nodes nodes' : List LruNode}
    (represents : inner.Represents nodes) (chain : inner'.Chain nodes')
    (frame : SameFrame inner inner') (reordered : nodes'.Perm nodes) :
    inner'.Represents nodes' where
  toChain := chain
  keysNodup := (reordered.map Prod.fst).nodup_iff.mpr represents.keysNodup
  indexed := by
    intro key slot
    rw [frame.index, represents.indexed, reordered.mem_iff]
  freeNodup := frame.freeIndices ▸ represents.freeNodup
  freeApart := by
    intro slot member
    rw [frame.freeIndices] at member
    rw [(reordered.map Prod.snd).mem_iff]
    exact represents.freeApart slot member
  covers := by
    intro slot
    rw [frame.length, frame.freeIndices, (reordered.map Prod.snd).mem_iff]
    exact represents.covers slot

/-- What `alloc_entry` gives: a detached slot holding the key, outside the
chain and outside the remaining free slots. -/
structure Allocated (before after : LruInner) (nodes : List LruNode) (key : PrefixHash)
    (slot : Nat) : Prop where
  chain : after.Chain nodes
  entry : after.entries[slot]? = some ⟨key, none, none⟩
  detached : slot ∉ nodes.map Prod.snd
  notFree : slot ∉ after.freeIndices
  index : after.index = before.index
  freeNodup : after.freeIndices.Nodup
  freeSubset : ∀ other ∈ after.freeIndices, other ∈ before.freeIndices
  covers : ∀ other, other < after.entries.length ↔
    other = slot ∨ other ∈ nodes.map Prod.snd ∨ other ∈ after.freeIndices

/-- Without a free slot, `alloc_entry` appends one. -/
theorem allocEntry_of_full {inner : LruInner} {nodes : List LruNode}
    (represents : inner.Represents nodes) (full : inner.freeIndices.getLast? = none)
    (key : PrefixHash) :
    ∃ slot inner', inner.allocEntry key = .ok (slot, inner') ∧
      Allocated inner inner' nodes key slot ∧
      inner'.entries.length = max inner.entries.length (nodes.length + 1) := by
  have empty : inner.freeIndices = [] := List.getLast?_eq_none_iff.mp full
  have allLive := represents.length_eq
  rw [empty, List.length_nil, Nat.add_zero] at allLive
  have detached : inner.entries.length ∉ nodes.map Prod.snd := by
    intro member
    exact absurd ((represents.covers _).mpr (Or.inl member)) (lt_irrefl _)
  refine ⟨inner.entries.length,
    { inner with entries := inner.entries ++ [⟨key, none, none⟩] },
    by simp [allocEntry, full], ⟨⟨?_, represents.head, represents.tail, represents.slotsNodup⟩,
      by simp, detached, by simp [empty], rfl, represents.freeNodup, fun _ member => member,
      ?_⟩, by simp [allLive]⟩
  · apply represents.segment.congr
    intro node member
    apply List.getElem?_append_left
    exact (represents.covers _).mpr (Or.inl (List.mem_map_of_mem member))
  · intro other
    have grown : other < inner.entries.length + 1 ↔
        other < inner.entries.length ∨ other = inner.entries.length := by
      omega
    simp only [List.length_append, List.length_cons, List.length_nil, Nat.zero_add, grown,
      represents.covers]
    exact or_comm

/-- Otherwise it takes the free slot on top. -/
theorem allocEntry_of_free {inner : LruInner} {nodes : List LruNode} {slot : Nat}
    (represents : inner.Represents nodes) (top : inner.freeIndices.getLast? = some slot)
    (key : PrefixHash) :
    ∃ slot inner', inner.allocEntry key = .ok (slot, inner') ∧
      Allocated inner inner' nodes key slot ∧
      inner'.entries.length = max inner.entries.length (nodes.length + 1) := by
  have split := List.dropLast_append_getLast? slot top
  have inFree : slot ∈ inner.freeIndices := List.mem_of_getLast? top
  have inside : slot < inner.entries.length := (represents.covers slot).mpr (Or.inr inFree)
  have detached := represents.freeApart slot inFree
  have roomy : nodes.length + 1 ≤ inner.entries.length := by
    have someFree := List.length_pos_of_mem inFree
    have slots := represents.length_eq
    omega
  have nodup := represents.freeNodup
  rw [← split, List.nodup_append] at nodup
  have notFree : slot ∉ inner.freeIndices.dropLast := fun member =>
    nodup.2.2 slot member slot (by simp) rfl
  refine ⟨slot, {
      inner with
      freeIndices := inner.freeIndices.dropLast
      entries := inner.entries.set slot ⟨key, none, none⟩ },
    by simp [allocEntry, top, inside],
    ⟨⟨?_, represents.head, represents.tail, represents.slotsNodup⟩, by simp [inside], detached,
      notFree, rfl, nodup.1, fun _ member => List.dropLast_subset _ member, ?_⟩, by simp [roomy]⟩
  · apply represents.segment.congr
    intro node member
    apply List.getElem?_set_ne
    intro same
    exact detached (same ▸ List.mem_map_of_mem member)
  · intro other
    have freeSplit : other ∈ inner.freeIndices ↔
        other ∈ inner.freeIndices.dropLast ∨ other = slot := by
      conv_lhs => rw [← split]
      simp
    simp only [List.length_set, represents.covers other, freeSplit]
    rw [← or_assoc]
    exact or_comm

theorem allocEntry_spec {inner : LruInner} {nodes : List LruNode}
    (represents : inner.Represents nodes) (key : PrefixHash) :
    ∃ slot inner', inner.allocEntry key = .ok (slot, inner') ∧
      Allocated inner inner' nodes key slot ∧
      inner'.entries.length = max inner.entries.length (nodes.length + 1) := by
  cases top : inner.freeIndices.getLast? with
  | none => exact allocEntry_of_full represents top key
  | some slot => exact allocEntry_of_free represents top key

private theorem notMem_keys_of_append {front back : List LruNode} {node : LruNode}
    (nodup : ((front ++ node :: back).map Prod.fst).Nodup) :
    node.1 ∉ front.map Prod.fst ∧ node.1 ∉ back.map Prod.fst := by
  simp only [List.map_append, List.map_cons, List.nodup_append, List.nodup_cons,
    List.mem_cons] at nodup
  exact ⟨fun member => nodup.2.2 _ member _ (Or.inl rfl) rfl, nodup.2.1.1⟩

private theorem keys_erase_append {front back : List LruNode} {node : LruNode}
    (nodup : ((front ++ node :: back).map Prod.fst).Nodup) :
    ((front ++ node :: back).map Prod.fst).erase node.1 = (front ++ back).map Prod.fst := by
  have apart := (notMem_keys_of_append nodup).1
  simp [List.erase_append_right _ apart]

/-- A key the index does not know is not live. -/
theorem Represents.notMem_keys {inner : LruInner} {nodes : List LruNode}
    (represents : inner.Represents nodes) {key : PrefixHash}
    (missing : inner.index.lookup key = none) : key ∉ nodes.map Prod.fst := by
  intro member
  obtain ⟨node, inNodes, same⟩ := List.mem_map.mp member
  have indexed := (represents.indexed node.1 node.2).mpr inNodes
  rw [same, missing] at indexed
  cases indexed

/-- A live key is unlinked and pushed to the front. -/
theorem touch_of_live {inner : LruInner} {nodes : List LruNode}
    (represents : inner.Represents nodes) {key : PrefixHash} {slot : Nat}
    (found : inner.index.lookup key = some slot) :
    ∃ inner' nodes', inner.touch key = .ok inner' ∧ inner'.Represents nodes' ∧
      nodes'.map Prod.fst = key :: (nodes.map Prod.fst).erase key ∧
      inner'.entries.length = max inner.entries.length nodes'.length := by
  obtain ⟨front, back, rfl⟩ := List.append_of_mem ((represents.indexed key slot).mp found)
  obtain ⟨detached, unlinked, chain, unlinkFrame, entry⟩ := unlink_spec represents.toChain
  have nodup := represents.slotsNodup
  have apart : slot ∉ (front ++ back).map Prod.snd := by
    have perm : (((key, slot) :: (front ++ back)).map Prod.snd).Perm
        ((front ++ (key, slot) :: back).map Prod.snd) := List.perm_middle.symm.map _
    exact (List.nodup_cons.mp (perm.nodup_iff.mpr nodup)).1
  obtain ⟨final, pushed, finalChain, pushFrame⟩ := pushFront_spec chain entry apart
  have frame := unlinkFrame.trans pushFrame
  have represents' := represents.of_perm finalChain frame List.perm_middle.symm
  refine ⟨final, (key, slot) :: (front ++ back), ?_, represents', ?_, ?_⟩
  · simp only [touch, found, unlinked, bind, Except.bind]
    exact pushed
  · rw [@keys_erase_append front back (key, slot) represents.keysNodup]
    rfl
  · rw [← frame.length, Nat.max_eq_left represents'.length_le]

/-- A new key gets a slot of its own at the front. -/
theorem touch_of_missing {inner : LruInner} {nodes : List LruNode}
    (represents : inner.Represents nodes) {key : PrefixHash}
    (missing : inner.index.lookup key = none) :
    ∃ inner' nodes', inner.touch key = .ok inner' ∧ inner'.Represents nodes' ∧
      nodes'.map Prod.fst = key :: (nodes.map Prod.fst).erase key ∧
      inner'.entries.length = max inner.entries.length nodes'.length := by
  have absent := represents.notMem_keys missing
  obtain ⟨slot, allocated, allocatedEq, spec, grown⟩ := allocEntry_spec represents key
  obtain ⟨final, pushed, chain, frame⟩ := pushFront_spec spec.chain spec.entry spec.detached
  refine ⟨{ final with index := final.index.insert key slot }, (key, slot) :: nodes, ?_,
    ⟨⟨chain.segment, chain.head, chain.tail, chain.slotsNodup⟩, ?_, ?_, ?_, ?_, ?_⟩, ?_,
    frame.length.trans grown⟩
  · simp only [touch, missing, allocatedEq, bind, Except.bind, pushed]
    rfl
  · exact List.nodup_cons.mpr ⟨absent, represents.keysNodup⟩
  · intro other otherSlot
    rw [frame.index, spec.index]
    by_cases same : other = key
    · subst same
      rw [AList.lookup_insert]
      have notOld : (other, otherSlot) ∉ nodes := fun member =>
        absent (List.mem_map.mpr ⟨_, member, rfl⟩)
      simp [notOld, eq_comm]
    · rw [AList.lookup_insert_ne same, represents.indexed]
      simp [same]
  · exact frame.freeIndices ▸ spec.freeNodup
  · intro other member
    rw [frame.freeIndices] at member
    simp only [List.map_cons, List.mem_cons, not_or]
    refine ⟨?_, represents.freeApart other (spec.freeSubset other member)⟩
    rintro rfl
    exact spec.notFree member
  · intro other
    rw [frame.length, frame.freeIndices, spec.covers]
    simp [or_assoc]
  · simp [List.erase_of_not_mem absent]

/-- `touch` never panics and moves the key to the front; the slab grows only when all
its slots are live. -/
theorem touch_spec {inner : LruInner} {nodes : List LruNode}
    (represents : inner.Represents nodes) (key : PrefixHash) :
    ∃ inner' nodes', inner.touch key = .ok inner' ∧ inner'.Represents nodes' ∧
      nodes'.map Prod.fst = key :: (nodes.map Prod.fst).erase key ∧
      inner'.entries.length = max inner.entries.length nodes'.length := by
  cases found : inner.index.lookup key with
  | some slot => exact touch_of_live represents found
  | none => exact touch_of_missing represents found

/-- The shared tail of `remove` and `evict_lru`: forget a live key, unlink its
slot and free it. -/
theorem release_spec {inner : LruInner} {front back : List LruNode} {node : LruNode}
    (represents : inner.Represents (front ++ node :: back)) :
    ∃ inner', { inner with index := inner.index.erase node.1 }.unlink node.2 = .ok inner' ∧
      Represents { inner' with freeIndices := inner'.freeIndices ++ [node.2] }
        (front ++ back) ∧
      inner'.entries.length = max inner.entries.length (front ++ back).length := by
  have forgottenChain : Chain { inner with index := inner.index.erase node.1 }
      (front ++ node :: back) :=
    ⟨represents.segment, represents.head, represents.tail, represents.slotsNodup⟩
  obtain ⟨unlinked, unlinkedEq, chain, frame, -⟩ := unlink_spec forgottenChain
  have apart := notMem_keys_of_append represents.keysNodup
  have slotPerm : ((front ++ node :: back).map Prod.snd).Perm
      (node.2 :: (front ++ back).map Prod.snd) := List.perm_middle.map _
  have slots := List.nodup_cons.mp (slotPerm.nodup_iff.mp represents.slotsNodup)
  have nodeMember : node ∈ front ++ node :: back := by simp
  have sameLength : unlinked.entries.length = max inner.entries.length (front ++ back).length := by
    have fewer := represents.length_le
    rw [List.length_append, List.length_cons] at fewer
    rw [Nat.max_eq_left (by rw [List.length_append]; omega)]
    exact frame.length
  refine ⟨unlinked, unlinkedEq,
    ⟨⟨chain.segment, chain.head, chain.tail, chain.slotsNodup⟩, ?_, ?_, ?_, ?_, ?_⟩, sameLength⟩
  · exact represents.keysNodup.sublist
      (((List.Sublist.refl front).append (List.sublist_cons_self node back)).map Prod.fst)
  · intro key slot
    simp only [frame.index]
    by_cases same : key = node.1
    · subst same
      rw [AList.lookup_erase]
      have notLive : (node.1, slot) ∉ front ++ back := by
        intro member
        rcases List.mem_append.mp member with inFront | inBack
        · exact apart.1 (List.mem_map.mpr ⟨_, inFront, rfl⟩)
        · exact apart.2 (List.mem_map.mpr ⟨_, inBack, rfl⟩)
      simp [notLive]
    · rw [AList.lookup_erase_ne same, represents.indexed]
      have notNode : (key, slot) ≠ node := fun equal => same (by rw [← equal])
      simp [notNode]
  · simp only [frame.freeIndices]
    refine List.nodup_append.mpr ⟨represents.freeNodup, by simp, ?_⟩
    intro slot member other isNode same
    rw [List.mem_singleton.mp isNode] at same
    exact represents.freeApart slot member (same ▸ List.mem_map_of_mem nodeMember)
  · intro slot member
    simp only [frame.freeIndices, List.mem_append, List.mem_singleton] at member
    rcases member with free | isNode
    · intro live
      exact represents.freeApart slot free (slotPerm.mem_iff.mpr (List.mem_cons_of_mem _ live))
    · exact isNode ▸ slots.1
  · intro slot
    have old := represents.covers slot
    rw [slotPerm.mem_iff, List.mem_cons] at old
    simp only [frame.length, frame.freeIndices, old, List.mem_append, List.mem_singleton]
    rw [or_assoc, or_comm, or_assoc]

/-- `remove` never panics and erases the key; the slab keeps its size. -/
theorem remove_spec {inner : LruInner} {nodes : List LruNode}
    (represents : inner.Represents nodes) (key : PrefixHash) :
    ∃ inner' nodes', inner.remove key = .ok inner' ∧ inner'.Represents nodes' ∧
      nodes'.map Prod.fst = (nodes.map Prod.fst).erase key ∧
      inner'.entries.length = max inner.entries.length nodes'.length := by
  cases found : inner.index.lookup key with
  | some slot =>
      obtain ⟨front, back, rfl⟩ := List.append_of_mem ((represents.indexed key slot).mp found)
      obtain ⟨unlinked, unlinkedEq, released, sameLength⟩ := release_spec represents
      refine ⟨_, front ++ back, ?_, released, ?_, sameLength⟩
      · simp only [remove, found, unlinkedEq, bind, Except.bind]
        rfl
      · exact (@keys_erase_append front back (key, slot) represents.keysNodup).symm
  | none =>
      refine ⟨inner, nodes, by simp [remove, found], represents, ?_,
        (Nat.max_eq_left represents.length_le).symm⟩
      rw [List.erase_of_not_mem (represents.notMem_keys found)]

/-- `evict_lru` never panics, returns the last key and drops it; the slab keeps its
size. -/
theorem evictLru_spec {inner : LruInner} {nodes : List LruNode}
    (represents : inner.Represents nodes) :
    ∃ inner' nodes',
      inner.evictLru = .ok ((nodes.map Prod.fst).getLast?, inner') ∧ inner'.Represents nodes' ∧
      nodes'.map Prod.fst = (nodes.map Prod.fst).dropLast ∧
      inner'.entries.length = max inner.entries.length nodes'.length := by
  rcases List.eq_nil_or_concat nodes with empty | ⟨front, last, split⟩
  · subst empty
    have noTail : inner.tail = none := represents.tail
    exact ⟨inner, [], by simp [evictLru, noTail], represents, rfl, (Nat.max_zero _).symm⟩
  · rw [List.concat_eq_append] at split
    subst split
    have tailEq : inner.tail = some last.2 := by
      rw [represents.tail, lastSlot_append]
      rfl
    obtain ⟨entry, entryEq, keyEq⟩ :=
      represents.segment.getElem?_of_mem (show last ∈ _ by simp)
    obtain ⟨unlinked, unlinkedEq, released, sameLength⟩ := release_spec represents
    rw [List.append_nil] at released sameLength
    simp only [tailEq] at unlinkedEq
    refine ⟨_, front, ?_, released, by simp, sameLength⟩
    simp only [evictLru, tailEq, entryEq, keyEq, unlinkedEq, bind, Except.bind, pure, Except.pure,
      List.map_append, List.map_cons, List.map_nil, List.getLast?_append, List.getLast?_singleton,
      Option.some_or]

/-! ## Walking the list -/

/-- The keys met by following `next` from a slot, at most `fuel` of them. -/
def walk (entries : List LruEntry) : Nat → Option Nat → List PrefixHash
  | 0, _ => []
  | _ + 1, none => []
  | fuel + 1, some slot =>
      match entries[slot]? with
      | none => []
      | some entry => entry.prefixHash :: walk entries fuel entry.next

/-- The keys met by following `next` from `head`. The slab bounds the walk: a
represented list has no more nodes than the slab has entries. -/
def keys (inner : LruInner) : List PrefixHash :=
  walk inner.entries inner.entries.length inner.head

theorem walk_eq_of_segment {entries : List LruEntry} {prev : Option Nat} {nodes : List LruNode}
    (segment : Segment entries none prev nodes) {fuel : Nat} (enough : nodes.length ≤ fuel) :
    walk entries fuel (headSlot none nodes) = nodes.map Prod.fst := by
  induction nodes generalizing prev fuel with
  | nil => cases fuel <;> rfl
  | cons node rest inductionHypothesis =>
      cases fuel with
      | zero => simp at enough
      | succ fuel =>
          have startsAt : headSlot none (node :: rest) = some node.2 := rfl
          rw [startsAt, walk, segment.1, List.map_cons]
          exact congrArg _ (inductionHypothesis segment.2 (by simpa using enough))

theorem Represents.keys_eq {inner : LruInner} {nodes : List LruNode}
    (represents : inner.Represents nodes) : inner.keys = nodes.map Prod.fst := by
  unfold keys
  rw [represents.head]
  exact walk_eq_of_segment represents.segment represents.length_le

end LruInner

/-! ## The policy -/

/-- `LruPolicy`: a slab that represents some recency list. The mutex makes each
operation one atomic step, so no other slab is ever observed. -/
structure LruPolicy where
  inner : LruInner
  wellFormed : ∃ nodes, inner.Represents nodes

namespace LruPolicy

def new : LruPolicy := ⟨LruInner.new, [], LruInner.new_represents⟩

/-- The tracked keys, most recent first. -/
def keys (policy : LruPolicy) : List PrefixHash := policy.inner.keys

private theorem touch_returns (policy : LruPolicy) (key : PrefixHash) :
    ∃ inner, policy.inner.touch key = .ok inner := by
  obtain ⟨nodes, represents⟩ := policy.wellFormed
  obtain ⟨inner, -, touched, -⟩ := LruInner.touch_spec represents key
  exact ⟨inner, touched⟩

private theorem remove_returns (policy : LruPolicy) (key : PrefixHash) :
    ∃ inner, policy.inner.remove key = .ok inner := by
  obtain ⟨nodes, represents⟩ := policy.wellFormed
  obtain ⟨inner, -, removed, -⟩ := LruInner.remove_spec represents key
  exact ⟨inner, removed⟩

private theorem evictLru_returns (policy : LruPolicy) :
    ∃ result, policy.inner.evictLru = .ok result := by
  obtain ⟨nodes, represents⟩ := policy.wellFormed
  obtain ⟨inner, -, evicted, -⟩ := LruInner.evictLru_spec represents
  exact ⟨_, evicted⟩

def touch (policy : LruPolicy) (key : PrefixHash) : LruPolicy where
  inner := returned (policy.inner.touch key) (policy.touch_returns key)
  wellFormed := by
    obtain ⟨nodes, represents⟩ := policy.wellFormed
    obtain ⟨inner, nodes', touched, represents', -⟩ := LruInner.touch_spec represents key
    exact ⟨nodes', by rwa [returned_eq _ touched]⟩

def remove (policy : LruPolicy) (key : PrefixHash) : LruPolicy where
  inner := returned (policy.inner.remove key) (policy.remove_returns key)
  wellFormed := by
    obtain ⟨nodes, represents⟩ := policy.wellFormed
    obtain ⟨inner, nodes', removed, represents', -⟩ := LruInner.remove_spec represents key
    exact ⟨nodes', by rwa [returned_eq _ removed]⟩

/-- `evict_lru`: the victim, if any, and the policy without it. -/
def evictLru (policy : LruPolicy) : Option PrefixHash × LruPolicy :=
  ((returned policy.inner.evictLru policy.evictLru_returns).1,
    { inner := (returned policy.inner.evictLru policy.evictLru_returns).2
      wellFormed := by
        obtain ⟨nodes, represents⟩ := policy.wellFormed
        obtain ⟨inner, nodes', evicted, represents', -⟩ := LruInner.evictLru_spec represents
        exact ⟨nodes', by rwa [returned_eq _ evicted]⟩ })

/-- `len`: the size of the key index. -/
def len (policy : LruPolicy) : Nat := policy.inner.index.entries.length

theorem keys_nodup (policy : LruPolicy) : policy.keys.Nodup := by
  obtain ⟨nodes, represents⟩ := policy.wellFormed
  rw [keys, represents.keys_eq]
  exact represents.keysNodup

@[simp] theorem keys_new : LruPolicy.new.keys = [] := rfl

theorem keys_touch (policy : LruPolicy) (key : PrefixHash) :
    (policy.touch key).keys = key :: policy.keys.erase key := by
  obtain ⟨nodes, represents⟩ := policy.wellFormed
  obtain ⟨inner, nodes', touched, represents', order, -⟩ := LruInner.touch_spec represents key
  have sameInner : (policy.touch key).inner = inner := returned_eq _ touched
  rw [keys, sameInner, represents'.keys_eq, order, keys, represents.keys_eq]

theorem keys_remove (policy : LruPolicy) (key : PrefixHash) :
    (policy.remove key).keys = policy.keys.erase key := by
  obtain ⟨nodes, represents⟩ := policy.wellFormed
  obtain ⟨inner, nodes', removed, represents', order, -⟩ := LruInner.remove_spec represents key
  have sameInner : (policy.remove key).inner = inner := returned_eq _ removed
  rw [keys, sameInner, represents'.keys_eq, order, keys, represents.keys_eq]

theorem evictLru_fst (policy : LruPolicy) : policy.evictLru.1 = policy.keys.getLast? := by
  obtain ⟨nodes, represents⟩ := policy.wellFormed
  obtain ⟨inner, nodes', evicted, -⟩ := LruInner.evictLru_spec represents
  have victim := congrArg Prod.fst (returned_eq policy.evictLru_returns evicted)
  rw [keys, represents.keys_eq]
  exact victim

theorem keys_evictLru (policy : LruPolicy) : policy.evictLru.2.keys = policy.keys.dropLast := by
  obtain ⟨nodes, represents⟩ := policy.wellFormed
  obtain ⟨inner, nodes', evicted, represents', order, -⟩ := LruInner.evictLru_spec represents
  have sameInner : policy.evictLru.2.inner = inner :=
    congrArg Prod.snd (returned_eq policy.evictLru_returns evicted)
  rw [keys, sameInner, represents'.keys_eq, order, keys, represents.keys_eq]

end LruPolicy

end CmxRdma.BlockStore
