import CmxRdma.Agent.Grpc
import CmxRdma.Lib.Transition
import Mathlib.Algebra.Order.Group.Multiset
import Mathlib.Tactic.Abel

/-!
Contract: concurrent Store, Get and Delete requests of one agent, interleaved at
the granularity of their accesses to the allocator and the index.

Owns: the requests in flight, the atomic steps of the handlers, the history of
writes and deliveries the statements refer to, the locations a state holds, and
what one step can do to the allocator and to them.

Does not own: steps inside one index call, which `IndexConcurrency` splits
further. Admitting a Store changes nothing, so a Store starts here with the key
and the data it was admitted with.
-/

namespace CmxRdma.Agent

open CmxRdma.BlockStore
open CmxRdma.Lib.Gather
open CmxRdma.Lib.Transition
open CmxRdma.Memory

/-- A Store between `allocate_and_write` and the index insert. -/
structure PendingStore where
  key : PrefixHash
  location : BlockLocation
deriving DecidableEq

/-- A Get between the index lookup and `read_verified`. -/
structure PendingGet where
  key : PrefixHash
  entry : IndexEntry
deriving DecidableEq

/-- History: a write that returned a location. -/
structure Write where
  key : PrefixHash
  data : List UInt8
  location : BlockLocation
deriving DecidableEq

/-- History: a data message of a Get and the generation its header announced. -/
structure Delivery where
  key : PrefixHash
  generation : UInt64
  data : List UInt8
deriving DecidableEq

/-- The shared structures, the requests in flight and the history. A pending
Delete is the list of blocks it has removed and not freed yet. -/
structure System where
  allocator : BlockAllocator
  index : BlockIndex
  stores : List PendingStore
  gets : List PendingGet
  deletes : List (List BlockLocation)
  writes : List Write
  deliveries : List Delivery

/-- One atomic step of some request; positions count the requests in flight. -/
inductive Action where
  | storeWrite (key : PrefixHash) (data : List UInt8)
  | storeInsert (position : Nat) (now : UInt64)
  | lookup (key : PrefixHash)
  | getLookup (key : PrefixHash)
  | getRead (position : Nat)
  | deleteRemove (key : PrefixHash)
  | deleteFree (position : Nat)

namespace System

/-- An agent with nothing in flight and no history. -/
def idle (allocator : BlockAllocator) (index : BlockIndex) : System where
  allocator := allocator
  index := index
  stores := []
  gets := []
  deletes := []
  writes := []
  deliveries := []

/-- A fresh agent. -/
def new (geometry : Geometry) (nodeId : UInt32) (capacity : Nat) : System :=
  idle (BlockAllocator.new (MemoryPool.fresh geometry) nodeId) (BlockIndex.new capacity)

/-- The data messages the task of a Get sends. -/
def delivered (platform : Platform) (allocator : BlockAllocator) (pending : PendingGet) :
    List Delivery :=
  (CacheService.streamBlocks platform allocator pending.entry.blocks).filterMap fun message =>
    match message with
    | .ok ⟨some (.data chunk)⟩ =>
        some ⟨pending.key, (CacheService.getHeader pending.entry).generationId, chunk⟩
    | _ => none

def step (platform : Platform) (system : System) : Action → System
  | .storeWrite key data =>
      match system.allocator.allocateAndWrite platform data with
      | (allocator, .ok (some (location, _))) =>
          { system with
            allocator := allocator
            stores := system.stores ++ [⟨key, location⟩]
            writes := system.writes ++ [⟨key, data, location⟩] }
      | (allocator, .ok none) => { system with allocator := allocator }
      | (allocator, .error _) => { system with allocator := allocator }
  | .storeInsert position now =>
      match system.stores[position]? with
      | none => system
      | some pending =>
          { system with
            index := (system.index.insert pending.key [pending.location] now).1
            stores := system.stores.eraseIdx position }
  | .lookup key => { system with index := (system.index.lookup key).1 }
  | .getLookup key =>
      match system.index.lookup key with
      | (index, none) => { system with index := index }
      | (index, some entry) =>
          { system with index := index, gets := system.gets ++ [⟨key, entry⟩] }
  | .getRead position =>
      match system.gets[position]? with
      | none => system
      | some pending =>
          { system with
            gets := system.gets.eraseIdx position
            deliveries := system.deliveries ++ delivered platform system.allocator pending }
  | .deleteRemove key =>
      match system.index.remove key with
      | (index, none) => { system with index := index }
      | (index, some entry) =>
          { system with index := index, deletes := system.deletes ++ [entry.blocks] }
  | .deleteFree position =>
      match system.deletes[position]? with
      | none => system
      | some [] => { system with deletes := system.deletes.eraseIdx position }
      | some (location :: rest) =>
          match system.allocator.deallocate (CacheService.localHandle location) with
          | .error _ => { system with deletes := system.deletes.eraseIdx position }
          | .ok freed =>
              { system with
                allocator := freed
                deletes := system.deletes.set position rest }

/-! ## Held locations -/

/-- Every location some part of the agent can still hand to the allocator or to
a reader: in an index entry, in a Store before its insert, in a Delete before
its free. -/
def held (system : System) : Multiset BlockLocation :=
  system.index.locations + ↑(system.stores.map PendingStore.location) + ↑system.deletes.flatten

theorem mem_held_of_mem_locations {system : System} {location : BlockLocation}
    (indexed : location ∈ system.index.locations) : location ∈ system.held :=
  Multiset.mem_add.mpr (Or.inl (Multiset.mem_add.mpr (Or.inl indexed)))

theorem mem_held_of_lookup {system : System} {key : PrefixHash} {entry : IndexEntry}
    {location : BlockLocation} (found : system.index.map.lookup key = some entry)
    (member : location ∈ entry.blocks) : location ∈ system.held :=
  mem_held_of_mem_locations (mem_gather.mpr ⟨key, entry, found, member⟩)

theorem mem_held_of_mem_stores {system : System} {pending : PendingStore}
    (inFlight : pending ∈ system.stores) : pending.location ∈ system.held :=
  Multiset.mem_add.mpr (Or.inl (Multiset.mem_add.mpr
    (Or.inr (Multiset.mem_coe.mpr (List.mem_map_of_mem inFlight)))))

theorem mem_held_of_mem_deletes {system : System} {pending : List BlockLocation}
    {location : BlockLocation} (inFlight : pending ∈ system.deletes)
    (member : location ∈ pending) : location ∈ system.held :=
  Multiset.mem_add.mpr (Or.inr (Multiset.mem_coe.mpr
    (List.mem_flatten.mpr ⟨pending, inFlight, member⟩)))

/-! ## What one step can do -/

/-- The effect of one step on the allocator, the held locations and the write
history. -/
inductive Effect (platform : Platform) (allocator : BlockAllocator) :
    Multiset BlockLocation → BlockAllocator → Multiset BlockLocation → List Write → Prop where
  /-- Locations may be dropped; the allocator is not called or refuses. -/
  | quiet {before after : Multiset BlockLocation} (fewer : after ≤ before) :
      Effect platform allocator before allocator after []
  /-- A block is taken, written and held. -/
  | write {before : Multiset BlockLocation} {after : BlockAllocator} {key : PrefixHash}
      {data : List UInt8} {location : BlockLocation} {handle : BlockHandle}
      (written : allocator.allocateAndWrite platform data =
        (after, .ok (some (location, handle)))) :
      Effect platform allocator before after (location ::ₘ before) [⟨key, data, location⟩]
  /-- A write panicked after it took a block, or before. -/
  | lose {before : Multiset BlockLocation} {after : BlockAllocator} {data : List UInt8}
      {panic : Panic}
      (panicked : allocator.allocateAndWrite platform data = (after, .error panic)) :
      Effect platform allocator before after before []
  /-- A held block is freed. -/
  | free {left : Multiset BlockLocation} {after : BlockAllocator} {location : BlockLocation}
      (freed : allocator.deallocate (CacheService.localHandle location) = .ok after) :
      Effect platform allocator (location ::ₘ left) after left []

/-- A written location joins the held ones. -/
theorem held_append_store {system : System} {allocator : BlockAllocator} {pending : PendingStore}
    {writes : List Write} :
    ({ system with
        allocator := allocator
        stores := system.stores ++ [pending]
        writes := writes } : System).held = pending.location ::ₘ system.held := by
  simp only [held, List.map_append, List.map_cons, List.map_nil, ← Multiset.coe_add,
    Multiset.coe_singleton, ← Multiset.singleton_add]
  abel

theorem flatten_eq_of_getElem? {lists : List (List BlockLocation)} {position : Nat}
    {blocks : List BlockLocation} (selected : lists[position]? = some blocks) :
    (↑lists.flatten : Multiset BlockLocation) =
      ↑blocks + ↑(lists.eraseIdx position).flatten := by
  obtain ⟨inside, rfl⟩ := List.getElem?_eq_some_iff.mp selected
  rw [Multiset.coe_add, Multiset.coe_eq_coe, ← List.flatten_cons]
  exact (List.getElem_cons_eraseIdx_perm inside).symm.flatten

theorem flatten_set {lists : List (List BlockLocation)} {position : Nat}
    (inside : position < lists.length) (blocks : List BlockLocation) :
    (↑(lists.set position blocks).flatten : Multiset BlockLocation) =
      ↑blocks + ↑(lists.eraseIdx position).flatten := by
  rw [Multiset.coe_add, Multiset.coe_eq_coe, ← List.flatten_cons]
  exact (List.set_perm_cons_eraseIdx inside blocks).flatten

/-- An insert moves a location into the index, or drops it. -/
theorem held_storeInsert_le {system : System} {position : Nat} {pending : PendingStore}
    (selected : system.stores[position]? = some pending) (now : UInt64) :
    ({ system with
        index := (system.index.insert pending.key [pending.location] now).1
        stores := system.stores.eraseIdx position } : System).held ≤ system.held := by
  obtain ⟨inside, rfl⟩ := List.getElem?_eq_some_iff.mp selected
  have moved : (↑(system.stores.map PendingStore.location) : Multiset BlockLocation) =
      system.stores[position].location ::ₘ
        ↑((system.stores.eraseIdx position).map PendingStore.location) := by
    rw [Multiset.cons_coe, Multiset.coe_eq_coe, ← List.map_cons]
    exact (List.getElem_cons_eraseIdx_perm inside).symm.map _
  have inserted := system.index.insert_locations_le system.stores[position].key
    [system.stores[position].location] now
  simp only [held, moved]
  calc _ ≤ (↑[system.stores[position].location] + system.index.locations) +
          ↑((system.stores.eraseIdx position).map PendingStore.location) +
        ↑system.deletes.flatten :=
        add_le_add (add_le_add inserted le_rfl) le_rfl
    _ = _ := by
        rw [Multiset.coe_singleton, ← Multiset.singleton_add]
        abel

/-- The removal of an entry leaves its locations to the Delete. -/
theorem held_deleteRemove_le (platform : Platform) (system : System) (key : PrefixHash) :
    (system.step platform (.deleteRemove key)).held ≤ system.held := by
  rcases outcome : system.index.remove key with ⟨index, _ | entry⟩
  · have removedMap : index.map = system.index.map.erase key := by
      simpa only [outcome] using system.index.remove_map key
    simp only [step, outcome, held, BlockIndex.locations, removedMap]
    exact add_le_add (add_le_add (gather_erase_le key) le_rfl) le_rfl
  · have moved := system.index.locations_eq_of_remove (congrArg Prod.snd outcome)
    rw [outcome] at moved
    simp only [step, outcome, held, moved, List.flatten_append, List.flatten_cons, List.flatten_nil,
      List.append_nil, ← Multiset.coe_add]
    refine le_of_eq ?_
    abel

/-- A Delete that gives up keeps nothing. -/
theorem held_deleteErase_le {system : System} {position : Nat} {blocks : List BlockLocation}
    (selected : system.deletes[position]? = some blocks) :
    ({ system with deletes := system.deletes.eraseIdx position } : System).held ≤ system.held := by
  simp only [held, flatten_eq_of_getElem? selected]
  exact add_le_add le_rfl (Multiset.le_add_left _ _)

/-- A Delete holds the location it frees next. -/
theorem held_eq_cons_of_delete {system : System} {position : Nat} {location : BlockLocation}
    {rest : List BlockLocation} (selected : system.deletes[position]? = some (location :: rest))
    (allocator : BlockAllocator) :
    system.held = location ::ₘ ({ system with
      allocator := allocator
      deletes := system.deletes.set position rest } : System).held := by
  obtain ⟨inside, -⟩ := List.getElem?_eq_some_iff.mp selected
  simp only [held, flatten_eq_of_getElem? selected, flatten_set inside, ← Multiset.cons_coe,
    ← Multiset.singleton_add]
  abel

/-- A step that leaves the allocator and the writes alone is quiet. -/
theorem effect_of_quiet {platform : Platform} {system after : System}
    (sameAllocator : after.allocator = system.allocator) (fewer : after.held ≤ system.held)
    (sameWrites : after.writes = system.writes) :
    ∃ written, Effect platform system.allocator system.held after.allocator after.held written ∧
      after.writes = system.writes ++ written := by
  refine ⟨[], ?_, by rw [sameWrites, List.append_nil]⟩
  rw [sameAllocator]
  exact Effect.quiet fewer

/-- Every step has one of the four effects. -/
theorem step_effect (platform : Platform) (system : System) (action : Action) :
    ∃ written,
      Effect platform system.allocator system.held (system.step platform action).allocator
        (system.step platform action).held written ∧
      (system.step platform action).writes = system.writes ++ written := by
  cases action with
  | storeWrite key data =>
      rcases outcome : system.allocator.allocateAndWrite platform data with ⟨allocator, result⟩
      rcases result with panic | refused | ⟨location, handle⟩
      · refine ⟨[], ?_, ?_⟩ <;> simp only [step, outcome, List.append_nil]
        exact Effect.lose outcome
      · obtain ⟨unchanged, -⟩ := BlockAllocator.allocateAndWrite_eq_none outcome
        simp only [step, outcome]
        exact @effect_of_quiet platform system { system with allocator := allocator } unchanged
          le_rfl rfl
      · refine ⟨[⟨key, data, location⟩], ?_, ?_⟩ <;> simp only [step, outcome]
        rw [held_append_store]
        exact Effect.write outcome
  | storeInsert position now =>
      simp only [step]
      cases selected : system.stores[position]? with
      | none => exact effect_of_quiet rfl le_rfl rfl
      | some pending => exact effect_of_quiet rfl (held_storeInsert_le selected now) rfl
  | lookup key =>
      refine effect_of_quiet rfl (le_of_eq ?_) rfl
      simp only [held, step, BlockIndex.locations, BlockIndex.lookup_map]
  | getLookup key =>
      simp only [step]
      rcases outcome : system.index.lookup key with ⟨index, found⟩
      have sameMap : index.map = system.index.map := by
        simpa only [outcome] using system.index.lookup_map key
      cases found <;> refine effect_of_quiet rfl (le_of_eq ?_) rfl <;>
        simp only [held, BlockIndex.locations, sameMap]
  | getRead position =>
      simp only [step]
      cases system.gets[position]? with
      | none => exact effect_of_quiet rfl le_rfl rfl
      | some pending => exact effect_of_quiet rfl le_rfl rfl
  | deleteRemove key =>
      refine effect_of_quiet ?_ (held_deleteRemove_le platform system key) ?_ <;>
        rcases outcome : system.index.remove key with ⟨index, _ | entry⟩ <;>
        simp only [step, outcome]
  | deleteFree position =>
      simp only [step]
      cases selected : system.deletes[position]? with
      | none => exact effect_of_quiet rfl le_rfl rfl
      | some blocks =>
          cases blocks with
          | nil => exact effect_of_quiet rfl (held_deleteErase_le selected) rfl
          | cons location rest =>
              cases outcome : system.allocator.deallocate (CacheService.localHandle location) with
              | error panic =>
                  simp only [outcome]
                  exact @effect_of_quiet platform system
                    { system with deletes := system.deletes.eraseIdx position } rfl
                    (held_deleteErase_le selected) rfl
              | ok freed =>
                  simp only [outcome]
                  refine ⟨[], ?_, (List.append_nil _).symm⟩
                  rw [held_eq_cons_of_delete selected freed]
                  exact Effect.free outcome

/-! ## What one step does to the index -/

/-- What a step leaves in the map of the index. -/
theorem index_map_step (platform : Platform) (system : System) (action : Action) :
    (system.step platform action).index.map =
      match action with
      | .storeInsert position now =>
          match system.stores[position]? with
          | none => system.index.map
          | some pending => (system.index.insert pending.key [pending.location] now).1.map
      | .deleteRemove removed => system.index.map.erase removed
      | _ => system.index.map := by
  cases action with
  | storeWrite stored data =>
      simp only [step]
      split <;> rfl
  | storeInsert position now =>
      simp only [step]
      cases system.stores[position]? <;> rfl
  | lookup looked => exact system.index.lookup_map looked
  | getLookup looked =>
      have sameMap := system.index.lookup_map looked
      simp only [step]
      split <;> simp_all
  | getRead position =>
      simp only [step]
      split <;> rfl
  | deleteRemove removed =>
      have removedMap := system.index.remove_map removed
      simp only [step]
      split <;> simp_all
  | deleteFree position =>
      simp only [step]
      split
      · rfl
      · rfl
      · split <;> rfl

/-- An entry after a step was inserted by it or was there before. -/
theorem lookup_index_step {platform : Platform} {system : System} {key : PrefixHash}
    {action : Action} {entry : IndexEntry}
    (found : (system.step platform action).index.map.lookup key = some entry) :
    (∃ position now pending, action = .storeInsert position now ∧
        system.stores[position]? = some pending ∧ pending.key = key ∧
        entry = ⟨[pending.location], now⟩) ∨
      system.index.map.lookup key = some entry := by
  rw [index_map_step] at found
  cases action with
  | storeInsert position now =>
      cases selected : system.stores[position]? with
      | none =>
          simp only [selected] at found
          exact Or.inr found
      | some pending =>
          simp only [selected] at found
          rcases BlockIndex.lookup_of_lookup_insert found with ⟨isKey, isNew⟩ | old
          · exact Or.inl ⟨position, now, pending, rfl, selected, isKey.symm, isNew⟩
          · exact Or.inr old
  | deleteRemove removed =>
      by_cases isKey : key = removed
      · subst isKey
        rw [show (system.index.map.erase key).lookup key = none from AList.lookup_erase _ _] at found
        cases found
      · exact Or.inr (AList.lookup_erase_ne isKey ▸ found)
  | _ => exact Or.inr found

/-- The step inserts an entry under a key. -/
def Inserts (key : PrefixHash) (system : System) : Action → Prop
  | .storeInsert position _ => ∃ pending ∈ system.stores[position]?, pending.key = key
  | _ => False

/-- The step takes the entry of a key out of the index: a Delete of the key, or an
insert of another key that evicts it. -/
def Removes (key : PrefixHash) (system : System) : Action → Prop
  | .storeInsert position now => key ∈ system.index.map ∧
      ∃ pending ∈ system.stores[position]?, pending.key ≠ key ∧
        key ∈ (system.index.insert pending.key [pending.location] now).2
  | .deleteRemove removed => key ∈ system.index.map ∧ removed = key
  | _ => False

instance (key : PrefixHash) (system : System) (action : Action) :
    Decidable (system.Inserts key action) :=
  match action with
  | .storeInsert position _ =>
      inferInstanceAs (Decidable (∃ pending ∈ system.stores[position]?, pending.key = key))
  | .storeWrite _ _ | .lookup _ | .getLookup _ | .getRead _ | .deleteRemove _ | .deleteFree _ =>
      inferInstanceAs (Decidable False)

instance (key : PrefixHash) (system : System) (action : Action) :
    Decidable (system.Removes key action) :=
  match action with
  | .storeInsert position now =>
      inferInstanceAs (Decidable (key ∈ system.index.map ∧
        ∃ pending ∈ system.stores[position]?, pending.key ≠ key ∧
          key ∈ (system.index.insert pending.key [pending.location] now).2))
  | .deleteRemove removed => inferInstanceAs (Decidable (key ∈ system.index.map ∧ removed = key))
  | .storeWrite _ _ | .lookup _ | .getLookup _ | .getRead _ | .deleteFree _ =>
      inferInstanceAs (Decidable False)

/-- A key is absent after a step exactly when the step removed it or it was absent and
the step did not insert it. -/
theorem notMem_index_step (platform : Platform) (system : System) (key : PrefixHash)
    (action : Action) :
    key ∉ (system.step platform action).index.map ↔
      system.Removes key action ∨ key ∉ system.index.map ∧ ¬ system.Inserts key action := by
  rw [index_map_step]
  cases action with
  | storeInsert position now =>
      simp only [Removes, Inserts]
      cases system.stores[position]? with
      | none => simp
      | some pending =>
          simp only [Option.mem_some_iff, exists_eq_left', ← AList.lookup_isSome,
            BlockIndex.lookup_insert]
          by_cases isKey : key = pending.key
          · simp [isKey]
          · simp only [if_neg isKey, Ne.symm isKey, ne_eq, not_false_iff, true_and, and_true]
            by_cases evicted : key ∈ (system.index.insert pending.key [pending.location] now).2
            · cases system.index.map.lookup key <;> simp [evicted]
            · simp [evicted]
  | deleteRemove removed =>
      simp only [Removes, Inserts, AList.mem_erase, not_false_iff, and_true]
      by_cases isKey : removed = key
      · simp [isKey, em]
      · simp [isKey, Ne.symm isKey]
  | storeWrite stored data => simp [Removes, Inserts]
  | lookup looked => simp [Removes, Inserts]
  | getLookup looked => simp [Removes, Inserts]
  | getRead position => simp [Removes, Inserts]
  | deleteFree position => simp [Removes, Inserts]

/-! ## A request handled alone -/

/-- The system with nothing in flight over the structures of a service. -/
structure Shows (system : System) (service : CacheService) : Prop where
  allocator : system.allocator = service.allocator
  index : system.index = service.index
  stores : system.stores = []
  gets : system.gets = []
  deletes : system.deletes = []

theorem Shows.held_eq {system : System} {service : CacheService}
    (shown : system.Shows service) : system.held = service.index.locations := by
  simp [held, shown.stores, shown.deletes, shown.index]

variable {platform : Platform} {system : System} {service service' : CacheService}

theorem Shows.lookup {key : PrefixHash} (shown : system.Shows service)
    (sameAllocator : service'.allocator = service.allocator)
    (looked : service'.index = (service.index.lookup key).1) :
    (system.step platform (.lookup key)).Shows service' where
  allocator := shown.allocator.trans sameAllocator.symm
  index := by
    rw [looked, ← shown.index]
    rfl
  stores := shown.stores
  gets := shown.gets
  deletes := shown.deletes

theorem shows_batchLookupFrom {modelId : String} (shown : system.Shows service)
    (hashes : List (List UInt8)) (found : List Bool) (blocks : List Proto.BlockLocation) :
    ∃ actions, (run (step platform) system actions).Shows
      (CacheService.batchLookupFrom platform modelId service hashes found blocks).1 := by
  induction hashes generalizing system service found blocks with
  | nil => exact ⟨[], shown⟩
  | cons rawHash rest inductionHypothesis =>
      unfold CacheService.batchLookupFrom
      split
      · exact ⟨[], shown⟩
      · rename_i prefixHash parsed
        split
        · rename_i index entry outcome
          have hit : (system.step platform
              (.lookup (compositeKey platform modelId prefixHash))).Shows
                { service with index := index }.countHit :=
            shown.lookup rfl (congrArg Prod.fst outcome).symm
          obtain ⟨actions, reached⟩ := inductionHypothesis hit
            (found ++ [true]) (blocks ++ entry.blocks.map service.protoLocation)
          exact ⟨_ :: actions, reached⟩
        · rename_i index outcome
          have miss : (system.step platform
              (.lookup (compositeKey platform modelId prefixHash))).Shows
                { service with index := index }.countMiss :=
            shown.lookup rfl (congrArg Prod.fst outcome).symm
          obtain ⟨actions, reached⟩ := inductionHypothesis miss (found ++ [false]) blocks
          exact ⟨_ :: actions, reached⟩

theorem shows_lookup (shown : system.Shows service) (request : Proto.LookupRequest) :
    ∃ actions, (run (step platform) system actions).Shows (service.lookup platform request).1 := by
  unfold CacheService.lookup
  split
  · exact ⟨[], shown⟩
  · rename_i prefixHash parsed
    refine ⟨[.lookup (compositeKey platform request.modelId prefixHash)], ?_⟩
    rw [run_cons, run_nil]
    dsimp only
    split
    · rename_i index entry outcome
      exact shown.lookup rfl (congrArg Prod.fst outcome).symm
    · rename_i index outcome
      split <;> exact shown.lookup rfl (congrArg Prod.fst outcome).symm

theorem shows_get (shown : system.Shows service) (request : Proto.GetRequest) :
    ∃ actions, (run (step platform) system actions).Shows (service.get platform request).1 := by
  unfold CacheService.get
  split
  · exact ⟨[], shown⟩
  · rename_i prefixHash parsed
    split
    · rename_i index outcome
      refine ⟨[.getLookup (compositeKey platform request.modelId prefixHash)], ?_⟩
      rw [run_cons, run_nil, step, shown.index, outcome]
      exact ⟨shown.allocator, rfl, shown.stores, shown.gets, shown.deletes⟩
    · rename_i index entry outcome
      refine ⟨[.getLookup (compositeKey platform request.modelId prefixHash), .getRead 0], ?_⟩
      simp only [run_cons, run_nil, step, shown.index, outcome, shown.gets, List.nil_append,
        List.getElem?_cons_zero]
      exact ⟨shown.allocator, rfl, shown.stores, rfl, shown.deletes⟩

theorem shows_store (shown : system.Shows service) (now : UInt64) (stream : Proto.StoreStream) :
    ∃ actions, (run (step platform) system actions).Shows
      (service.store platform now stream).1 := by
  unfold CacheService.store
  split
  · exact ⟨[], shown⟩
  · rename_i key data admitted
    split
    · rename_i allocator panic outcome
      refine ⟨[.storeWrite key data], ?_⟩
      simp only [run_cons, run_nil, step, shown.allocator, outcome]
      exact ⟨rfl, shown.index, shown.stores, shown.gets, shown.deletes⟩
    · rename_i allocator outcome
      refine ⟨[.storeWrite key data], ?_⟩
      simp only [run_cons, run_nil, step, shown.allocator, outcome]
      exact ⟨rfl, shown.index, shown.stores, shown.gets, shown.deletes⟩
    · rename_i allocator location handle outcome
      refine ⟨[.storeWrite key data, .storeInsert 0 now], ?_⟩
      simp only [run_cons, run_nil, step, shown.allocator, outcome, shown.stores, List.nil_append,
        List.getElem?_cons_zero, shown.index]
      exact ⟨rfl, rfl, rfl, shown.gets, shown.deletes⟩

/-- The frees of one pending Delete, taken one after the other. -/
theorem run_deleteFree {allocator : BlockAllocator} (blocks : List BlockLocation)
    (sameAllocator : system.allocator = allocator) (pending : system.deletes = [blocks]) :
    ∃ actions, run (step platform) system actions =
      { system with
        allocator := (CacheService.deallocateBlocks allocator blocks).1
        deletes := [] } := by
  induction blocks generalizing system allocator with
  | nil =>
      refine ⟨[.deleteFree 0], ?_⟩
      simp [step, pending, CacheService.deallocateBlocks, sameAllocator]
  | cons location rest inductionHypothesis =>
      unfold CacheService.deallocateBlocks
      cases outcome : allocator.deallocate (CacheService.localHandle location) with
      | error panic =>
          refine ⟨[.deleteFree 0], ?_⟩
          simp [step, pending, sameAllocator, outcome]
      | ok freed =>
          obtain ⟨actions, reached⟩ := @inductionHypothesis
            { system with allocator := freed, deletes := [rest] } freed rfl rfl
          refine ⟨.deleteFree 0 :: actions, ?_⟩
          simp only [run_cons, step, pending, List.getElem?_cons_zero, sameAllocator, outcome,
            List.set_cons_zero]
          exact reached

theorem shows_delete (shown : system.Shows service) (request : Proto.DeleteRequest) :
    ∃ actions, (run (step platform) system actions).Shows (service.delete request).1 := by
  unfold CacheService.delete
  split
  · exact ⟨[], shown⟩
  · rename_i prefixHash parsed
    split
    · rename_i index outcome
      refine ⟨[.deleteRemove prefixHash], ?_⟩
      simp only [run_cons, run_nil, step, shown.index, outcome]
      exact ⟨shown.allocator, rfl, shown.stores, shown.gets, shown.deletes⟩
    · rename_i index entry outcome
      let removed : System := system.step platform (.deleteRemove prefixHash)
      have removedEq : removed =
          { system with index := index, deletes := [entry.blocks] } := by
        simp only [removed, step, shown.index, outcome, shown.deletes, List.nil_append]
      obtain ⟨actions, reached⟩ := @run_deleteFree platform removed service.allocator entry.blocks
        (by rw [removedEq]; exact shown.allocator) (by rw [removedEq])
      refine ⟨.deleteRemove prefixHash :: actions, ?_⟩
      rw [run_cons, reached, removedEq]
      rcases freeing : CacheService.deallocateBlocks service.allocator entry.blocks with
        ⟨allocator, panic | ⟨⟩⟩ <;>
        exact ⟨rfl, rfl, shown.stores, shown.gets, rfl⟩

/-- A request handled alone is a run of its atomic steps. -/
theorem handle_eq_run (platform : Platform) (shown : system.Shows service) (request : Request) :
    ∃ actions, (run (step platform) system actions).Shows
      (service.handle platform request).1 := by
  cases request with
  | lookup request => exact shows_lookup shown request
  | batchLookup request => exact shows_batchLookupFrom shown request.prefixHashes [] []
  | store now stream => exact shows_store shown now stream
  | get request => exact shows_get shown request
  | delete request => exact shows_delete shown request

/-- A sequence of events taken one at a time is a run of atomic steps. -/
theorem run_react_eq_run (platform : Platform) (shown : system.Shows service)
    (events : List Event) :
    ∃ actions, (run (step platform) system actions).Shows
      (run (next (CacheService.react platform)) service events) := by
  induction events generalizing system service with
  | nil => exact ⟨[], shown⟩
  | cons event rest inductionHypothesis =>
      have reacted : ∃ actions, (run (step platform) system actions).Shows
          (service.react platform event).1 := by
        cases event with
        | request request => exact handle_eq_run platform shown request
        | pressure level =>
            exact ⟨[], shown.allocator, shown.index, shown.stores, shown.gets, shown.deletes⟩
        | remote contents =>
            exact ⟨[], shown.allocator, shown.index, shown.stores, shown.gets, shown.deletes⟩
      obtain ⟨first, afterFirst⟩ := reacted
      obtain ⟨others, afterOthers⟩ := inductionHypothesis afterFirst
      refine ⟨first ++ others, ?_⟩
      rw [run_append]
      exact afterOthers

/-- A fresh service is shown by a fresh system. -/
theorem new_shows (geometry : Geometry) (capacity : Nat) (nodeId : String) (metadata : Bool)
    (remoteIndex : Option RemoteIndex) :
    (System.new geometry 0 capacity).Shows
      (CacheService.new geometry capacity nodeId metadata remoteIndex) :=
  ⟨rfl, rfl, rfl, rfl, rfl⟩

end System

end CmxRdma.Agent
