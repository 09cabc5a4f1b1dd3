import CmxRdma.Agent.CrossKeyRead
import CmxRdma.BlockStore.IndexConcurrency

/-!
Contract: Stores, Lookups and Deletes of one agent, interleaved lock by lock.

Owns: the agent whose index calls are split as in `IndexConcurrency`, what its requests
in flight hold, and that even there every block has one owner and every entry of the map
reads back as a Store of its own key, although map and policy may fall apart.

Does not own: the write of a block, one step here since nobody else knows the block.
-/

namespace CmxRdma.Agent

open CmxRdma.BlockStore
open CmxRdma.Lib
open CmxRdma.Lib.Gather
open CmxRdma.Lib.Transition
open CmxRdma.Memory

/-! ## The agent -/

/-- A request in flight: inside a call of the index, or a Delete that frees the blocks of
the entry it removed. -/
inductive LockedRequest where
  | call (thread : BlockIndex.Thread)
  | free (blocks : List BlockLocation)
deriving DecidableEq

structure LockedAgent where
  allocator : BlockAllocator
  index : BlockIndex
  requests : List LockedRequest
  writes : List Write

inductive LockedAction where
  | store (key : PrefixHash) (data : List UInt8) (now : UInt64)
  | lookup (key : PrefixHash)
  | delete (key : PrefixHash)
  | advance (position : Nat)

namespace LockedRequest

/-- What a step of an index call makes of its request. A removal is over once it has left
the policy; its handler then frees what it removed. -/
def after (thread next : BlockIndex.Thread) : LockedRequest :=
  match thread with
  | .removeLruRemove _ entry => .free entry.blocks
  | _ => .call next

end LockedRequest

namespace LockedAgent

def new (geometry : Geometry) (nodeId : UInt32) (capacity : Nat) : LockedAgent where
  allocator := BlockAllocator.new (MemoryPool.fresh geometry) nodeId
  index := BlockIndex.new capacity
  requests := []
  writes := []

/-- One step of the request in a given position. -/
def advance (agent : LockedAgent) (position : Nat) : LockedRequest → LockedAgent
  | .call thread =>
      { agent with
        index := (agent.index.advance thread).1
        requests := agent.requests.set position
          (LockedRequest.after thread (agent.index.advance thread).2) }
  | .free [] => agent
  | .free (location :: rest) =>
      match agent.allocator.deallocate (CacheService.localHandle location) with
      | .error _ => { agent with requests := agent.requests.set position (.free []) }
      | .ok freed =>
          { agent with
            allocator := freed
            requests := agent.requests.set position (.free rest) }

def step (platform : Platform) (agent : LockedAgent) : LockedAction → LockedAgent
  | .store key data now =>
      match agent.allocator.allocateAndWrite platform data with
      | (allocator, .ok (some (location, _))) =>
          { agent with
            allocator := allocator
            requests := agent.requests ++
              [.call (BlockIndex.Call.insert key [location] now).start]
            writes := agent.writes ++ [⟨key, data, location⟩] }
      | (allocator, _) => { agent with allocator := allocator }
  | .lookup key =>
      { agent with requests := agent.requests ++ [.call (BlockIndex.Call.lookup key).start] }
  | .delete key =>
      { agent with requests := agent.requests ++ [.call (BlockIndex.Call.remove key).start] }
  | .advance position =>
      match agent.requests[position]? with
      | none => agent
      | some request => agent.advance position request

end LockedAgent

/-! ## What requests in flight hold -/

/-- The entry an `insert` has yet to put into the map. -/
def insertOwed : BlockIndex.Thread → Option (PrefixHash × IndexEntry)
  | .insertContainsKey key entry => some (key, entry)
  | .insertLen key entry _ => some (key, entry)
  | .insertEvictLru key entry _ => some (key, entry)
  | .insertMapRemove key entry _ _ => some (key, entry)
  | .insertMapInsert key entry _ => some (key, entry)
  | _ => none

namespace LockedRequest

def owed : LockedRequest → Option (PrefixHash × IndexEntry)
  | .call thread => insertOwed thread
  | .free _ => none

/-- The blocks that only this request knows. -/
def blocks : LockedRequest → List BlockLocation
  | .call (.removeLruRemove _ entry) => entry.blocks
  | .call thread => ((insertOwed thread).map fun owed => owed.2.blocks).getD []
  | .free blocks => blocks

end LockedRequest

namespace LockedAgent

def held (agent : LockedAgent) : Multiset BlockLocation :=
  agent.index.locations + ↑(agent.requests.flatMap LockedRequest.blocks)

/-- The requests with the one in a position in front. -/
theorem flatMap_blocks_of_getElem? {requests : List LockedRequest} {position : Nat}
    {request : LockedRequest} (selected : requests[position]? = some request) :
    (↑(requests.flatMap LockedRequest.blocks) : Multiset BlockLocation) =
      ↑request.blocks + ↑((requests.eraseIdx position).flatMap LockedRequest.blocks) := by
  obtain ⟨inside, rfl⟩ := List.getElem?_eq_some_iff.mp selected
  rw [Multiset.coe_add, Multiset.coe_eq_coe, ← List.flatMap_cons]
  exact ((List.getElem_cons_eraseIdx_perm inside).symm.flatMap_right _)

theorem flatMap_blocks_set {requests : List LockedRequest} {position : Nat}
    (inside : position < requests.length) (request : LockedRequest) :
    (↑((requests.set position request).flatMap LockedRequest.blocks) : Multiset BlockLocation) =
      ↑request.blocks + ↑((requests.eraseIdx position).flatMap LockedRequest.blocks) := by
  rw [Multiset.coe_add, Multiset.coe_eq_coe, ← List.flatMap_cons]
  exact (List.set_perm_cons_eraseIdx inside request).flatMap_right _

end LockedAgent

/-- What one step of an index call does to the map and to what its request holds. -/
inductive IndexEffect (index : BlockIndex) (before : LockedRequest) (index' : BlockIndex)
    (after : LockedRequest) : Prop where
  /-- Only the policy changes. -/
  | keep (sameMap : index'.map = index.map) (sameBlocks : after.blocks = before.blocks)
      (sameOwed : after.owed = before.owed)
  /-- The entry of an insertion goes into the map. -/
  | put {key : PrefixHash} {entry : IndexEntry} (owed : before.owed = some (key, entry))
      (blocks : before.blocks = entry.blocks)
      (inserted : index'.map = index.map.insert key entry) (noBlocks : after.blocks = [])
      (owesNone : after.owed = none)
  /-- The victim of an insertion leaves the map, and nobody keeps its blocks. -/
  | drop {victim : PrefixHash} (erased : index'.map = index.map.erase victim)
      (sameBlocks : after.blocks = before.blocks) (sameOwed : after.owed = before.owed)
  /-- An entry leaves the map and its blocks go to the removal. -/
  | take {key : PrefixHash} {entry : IndexEntry} (found : index.map.lookup key = some entry)
      (erased : index'.map = index.map.erase key) (noBlocks : before.blocks = [])
      (blocks : after.blocks = entry.blocks) (owesNone : after.owed = none)

theorem advance_effect (index : BlockIndex) (thread : BlockIndex.Thread) :
    IndexEffect index (.call thread) (index.advance thread).1
      (LockedRequest.after thread (index.advance thread).2) := by
  cases thread with
  | insertContainsKey key entry =>
      simp only [BlockIndex.advance, LockedRequest.after]
      split <;> exact .keep rfl rfl rfl
  | insertLen key entry evicted =>
      simp only [BlockIndex.advance, LockedRequest.after]
      split <;> exact .keep rfl rfl rfl
  | insertEvictLru key entry evicted =>
      simp only [BlockIndex.advance, LockedRequest.after]
      split <;> exact .keep rfl rfl rfl
  | insertMapRemove key entry evicted victim => exact .drop rfl rfl rfl
  | insertMapInsert key entry evicted => exact .put rfl rfl rfl rfl rfl
  | insertTouch key evicted => exact .keep rfl rfl rfl
  | lookupGet key => exact .keep (index.lookup_map key) rfl rfl
  | removeMapRemove key =>
      simp only [BlockIndex.advance, LockedRequest.after]
      cases found : index.map.lookup key with
      | none => exact .keep rfl rfl rfl
      | some entry => exact .take found rfl rfl rfl rfl
  | removeLruRemove key entry => exact .keep rfl rfl rfl
  | containsKey key => exact .keep rfl rfl rfl
  | returned result => exact .keep rfl rfl rfl

/-- Blocks move between the map and the request, or are dropped. -/
theorem IndexEffect.locations_le {index index' : BlockIndex} {before after : LockedRequest}
    (effect : IndexEffect index before index' after) :
    index'.locations + ↑after.blocks ≤ index.locations + ↑before.blocks := by
  cases effect with
  | keep sameMap sameBlocks sameOwed =>
      rw [BlockIndex.locations, sameMap, sameBlocks]
      exact le_rfl
  | put owed blocks inserted noBlocks owesNone =>
      rw [BlockIndex.locations, inserted, gather_insert, noBlocks, blocks, Multiset.coe_nil,
        add_zero, add_comm]
      exact add_le_add (gather_erase_le _) le_rfl
  | drop erased sameBlocks sameOwed =>
      rw [BlockIndex.locations, erased, sameBlocks]
      exact add_le_add (gather_erase_le _) le_rfl
  | take found erased noBlocks blocks owesNone =>
      rw [BlockIndex.locations, BlockIndex.locations, erased, gather_eq_of_lookup found, noBlocks,
        blocks, Multiset.coe_nil, add_zero, add_comm]

namespace LockedAgent

/-! ## Effects of steps -/

theorem held_of_getElem? {agent : LockedAgent} {position : Nat} {request : LockedRequest}
    (selected : agent.requests[position]? = some request) :
    agent.held = agent.index.locations + ↑request.blocks +
      ↑((agent.requests.eraseIdx position).flatMap LockedRequest.blocks) := by
  rw [held, flatMap_blocks_of_getElem? selected, add_assoc]

/-- Every step has an effect as in `Interleaving`. -/
theorem step_effect (platform : Platform) (agent : LockedAgent) (action : LockedAction) :
    ∃ written,
      System.Effect platform agent.allocator agent.held (agent.step platform action).allocator
        (agent.step platform action).held written ∧
      (agent.step platform action).writes = agent.writes ++ written := by
  cases action with
  | store key data now =>
      rcases outcome : agent.allocator.allocateAndWrite platform data with ⟨allocator, result⟩
      rcases result with panic | refused | ⟨location, handle⟩
      · refine ⟨[], ?_, ?_⟩ <;> simp only [step, outcome, List.append_nil]
        exact .lose outcome
      · obtain ⟨unchanged, -⟩ := BlockAllocator.allocateAndWrite_eq_none outcome
        refine ⟨[], ?_, ?_⟩ <;> simp only [step, outcome, List.append_nil, unchanged]
        exact .quiet le_rfl
      · refine ⟨[⟨key, data, location⟩], ?_, ?_⟩ <;> simp only [step, outcome]
        have joined : ({ agent with
            allocator := allocator
            requests := agent.requests ++
              [.call (BlockIndex.Call.insert key [location] now).start]
            writes := agent.writes ++ [⟨key, data, location⟩] } : LockedAgent).held =
            location ::ₘ agent.held := by
          simp only [held, List.flatMap_append, ← Multiset.coe_add, ← Multiset.singleton_add]
          rw [show ([.call (BlockIndex.Call.insert key [location] now).start] :
            List LockedRequest).flatMap LockedRequest.blocks = [location] from rfl,
            Multiset.coe_singleton]
          abel
        rw [joined]
        exact .write outcome
  | lookup key =>
      refine ⟨[], .quiet (le_of_eq ?_), (List.append_nil _).symm⟩
      simp [step, held, BlockIndex.Call.start, LockedRequest.blocks, insertOwed]
  | delete key =>
      refine ⟨[], .quiet (le_of_eq ?_), (List.append_nil _).symm⟩
      simp [step, held, BlockIndex.Call.start, LockedRequest.blocks, insertOwed]
  | advance position =>
      simp only [step]
      cases selected : agent.requests[position]? with
      | none => exact ⟨[], .quiet le_rfl, (List.append_nil _).symm⟩
      | some request =>
          have inside := (List.getElem?_eq_some_iff.mp selected).1
          have heldBefore := held_of_getElem? selected
          cases request with
          | call thread =>
              refine ⟨[], .quiet ?_, (List.append_nil _).symm⟩
              rw [heldBefore]
              simp only [advance, held, flatMap_blocks_set inside, ← add_assoc]
              exact add_le_add (advance_effect agent.index thread).locations_le le_rfl
          | free blocks =>
              cases blocks with
              | nil => exact ⟨[], .quiet le_rfl, (List.append_nil _).symm⟩
              | cons location rest =>
                  cases outcome : agent.allocator.deallocate (CacheService.localHandle location) with
                  | error panic =>
                      simp only [advance, outcome]
                      refine ⟨[], .quiet ?_, (List.append_nil _).symm⟩
                      rw [heldBefore]
                      simp only [held, flatMap_blocks_set inside, ← add_assoc]
                      exact add_le_add (add_le_add le_rfl (Multiset.zero_le _)) le_rfl
                  | ok freed =>
                      simp only [advance, outcome]
                      refine ⟨[], ?_, (List.append_nil _).symm⟩
                      have split : agent.held = location ::ₘ ({ agent with
                          allocator := freed
                          requests := agent.requests.set position (.free rest) } :
                            LockedAgent).held := by
                        rw [heldBefore]
                        simp only [held, flatMap_blocks_set inside, LockedRequest.blocks,
                          ← Multiset.cons_coe, ← Multiset.singleton_add]
                        abel
                      rw [split]
                      exact .free outcome

end LockedAgent

/-! ## The invariant -/

theorem LockedRequest.blocks_of_owed {request : LockedRequest} {key : PrefixHash}
    {entry : IndexEntry} (owed : request.owed = some (key, entry)) :
    request.blocks = entry.blocks := by
  cases request with
  | call thread =>
      cases thread <;> simp_all [LockedRequest.owed, insertOwed, LockedRequest.blocks]
  | free blocks => simp [LockedRequest.owed] at owed

namespace LockedAgent

/-- Every block has one owner, and every entry in the map or on its way there has the
block of a Store of its key. -/
structure Sound (platform : Platform) (geometry : Geometry) (agent : LockedAgent) : Prop where
  exclusive : Exclusive geometry agent.allocator agent.held
  mapped : ∀ key entry, agent.index.map.lookup key = some entry →
    ∃ location, entry.blocks = [location] ∧
      Backed platform geometry agent.allocator agent.writes key location
  owed : ∀ request ∈ agent.requests, ∀ key entry, request.owed = some (key, entry) →
    ∃ location, entry.blocks = [location] ∧
      Backed platform geometry agent.allocator agent.writes key location

section Steps

variable {platform : Platform} {geometry : Geometry} {agent : LockedAgent}

theorem lookup_of_lookup_erase {map : AList fun _ : PrefixHash => IndexEntry}
    {erased key : PrefixHash} {entry : IndexEntry}
    (found : (map.erase erased).lookup key = some entry) : map.lookup key = some entry := by
  by_cases same : key = erased
  · subst same
    rw [AList.lookup_erase] at found
    cases found
  · rwa [AList.lookup_erase_ne same] at found

theorem mem_held_of_mapped {key : PrefixHash} {entry : IndexEntry} {location : BlockLocation}
    (found : agent.index.map.lookup key = some entry) (member : location ∈ entry.blocks) :
    location ∈ agent.held :=
  Multiset.mem_add.mpr (.inl (mem_gather.mpr ⟨key, entry, found, member⟩))

theorem mem_held_of_request {request : LockedRequest} {location : BlockLocation}
    (inFlight : request ∈ agent.requests) (member : location ∈ request.blocks) :
    location ∈ agent.held :=
  Multiset.mem_add.mpr (.inr (Multiset.mem_coe.mpr
    (List.mem_flatMap.mpr ⟨request, inFlight, member⟩)))

theorem step_exclusive (platform : Platform) (few : geometry.totalBlocks ≤ 2 ^ 32)
    (action : LockedAction)
    (exclusive : Exclusive geometry agent.allocator agent.held) :
    Exclusive geometry (agent.step platform action).allocator
      (agent.step platform action).held := by
  obtain ⟨written, effect, -⟩ := step_effect platform agent action
  exact exclusive.effect few effect

/-- A Store writes into a block nobody holds. -/
theorem Sound.store (few : geometry.totalBlocks ≤ 2 ^ 32) (narrow : geometry.blockSize < 2 ^ 32)
    (sound : agent.Sound platform geometry) {key : PrefixHash} {data : List UInt8} (now : UInt64)
    {allocator : BlockAllocator} {location : BlockLocation} {handle : BlockHandle}
    (outcome : agent.allocator.allocateAndWrite platform data =
      (allocator, .ok (some (location, handle)))) :
    (agent.step platform (.store key data now)).Sound platform geometry := by
  have exclusive := step_exclusive platform few (.store key data now) sound.exclusive
  have written := written_of_allocateAndWrite few sound.exclusive.geometryEq outcome
  simp only [step, outcome] at exclusive ⊢
  have kept {owner : PrefixHash} {other : BlockLocation} (isHeld : other ∈ agent.held)
      (backed : Backed platform geometry agent.allocator agent.writes owner other) :
      Backed platform geometry allocator (agent.writes ++ [⟨key, data, location⟩]) owner other :=
    backed.mono (fun _ member => List.mem_append_left _ member) fun stored fits holds =>
      written.frame other stored fits (written.apart sound.exclusive isHeld) holds
  refine ⟨exclusive, ?_, ?_⟩
  · intro owner entry found
    obtain ⟨indexed, single, backed⟩ := sound.mapped owner entry found
    have isHeld : indexed ∈ agent.held := mem_held_of_mapped found (by simp [single])
    exact ⟨indexed, single, kept isHeld backed⟩
  · intro request member owner entry owes
    rcases List.mem_append.mp member with old | new
    · obtain ⟨indexed, single, backed⟩ := sound.owed request old owner entry owes
      have isBlock : indexed ∈ request.blocks := by
        simp [LockedRequest.blocks_of_owed owes, single]
      exact ⟨indexed, single, kept (mem_held_of_request old isBlock) backed⟩
    · rw [List.mem_singleton.mp new] at owes
      obtain ⟨rfl, rfl⟩ := Prod.mk.inj (Option.some.inj owes)
      have fits := written.fits
      have short : data.length < 2 ^ 32 := by omega
      exact ⟨location, rfl, ⟨key, data, location⟩, by simp, rfl, rfl, written.placed, fits,
        short, written.holds⟩

/-- A step that leaves the bytes alone: what is in the map or owed afterwards was in the
map or owed before. -/
theorem Sound.of_same_bytes {after : LockedAgent} (sound : agent.Sound platform geometry)
    (exclusive : Exclusive geometry after.allocator after.held)
    (region : after.allocator.pool.region = agent.allocator.pool.region)
    (writes : after.writes = agent.writes)
    (mapped : ∀ key entry, after.index.map.lookup key = some entry →
      agent.index.map.lookup key = some entry ∨
        ∃ request ∈ agent.requests, request.owed = some (key, entry))
    (owed : ∀ request ∈ after.requests, ∀ key entry, request.owed = some (key, entry) →
      ∃ earlier ∈ agent.requests, earlier.owed = some (key, entry)) :
    after.Sound platform geometry := by
  have kept {key : PrefixHash} {location : BlockLocation}
      (backed : Backed platform geometry agent.allocator agent.writes key location) :
      Backed platform geometry after.allocator after.writes key location := by
    rw [writes]
    refine backed.mono (fun _ member => member) fun data _ holds => ?_
    unfold HoldsAt
    rw [region]
    exact holds
  have keptAll {key : PrefixHash} {entry : IndexEntry}
      (backed : ∃ location, entry.blocks = [location] ∧
        Backed platform geometry agent.allocator agent.writes key location) :
      ∃ location, entry.blocks = [location] ∧
        Backed platform geometry after.allocator after.writes key location := by
    obtain ⟨location, single, backed⟩ := backed
    exact ⟨location, single, kept backed⟩
  refine ⟨exclusive, ?_, ?_⟩
  · intro key entry found
    rcases mapped key entry found with old | ⟨request, member, owes⟩
    · exact keptAll (sound.mapped key entry old)
    · exact keptAll (sound.owed request member key entry owes)
  · intro request member key entry owes
    obtain ⟨earlier, earlierMember, earlierOwes⟩ := owed request member key entry owes
    exact keptAll (sound.owed earlier earlierMember key entry earlierOwes)

/-- A step of an index call. -/
theorem Sound.call (few : geometry.totalBlocks ≤ 2 ^ 32)
    (sound : agent.Sound platform geometry) {position : Nat} {thread : BlockIndex.Thread}
    (selected : agent.requests[position]? = some (.call thread)) :
    (agent.step platform (.advance position)).Sound platform geometry := by
  have exclusive := step_exclusive platform few (.advance position) sound.exclusive
  have inFlight := List.mem_of_getElem? selected
  have effect := advance_effect agent.index thread
  simp only [step, selected, advance] at exclusive ⊢
  refine sound.of_same_bytes exclusive rfl rfl ?_ ?_
  · intro key entry found
    cases effect with
    | keep sameMap sameBlocks sameOwed =>
        rw [sameMap] at found
        exact .inl found
    | @put inserted insertedEntry owed blocks isInserted noBlocks owesNone =>
        rw [isInserted] at found
        by_cases same : key = inserted
        · subst same
          rw [AList.lookup_insert] at found
          obtain rfl := Option.some.inj found
          exact .inr ⟨_, inFlight, owed⟩
        · rw [AList.lookup_insert_ne same] at found
          exact .inl found
    | @drop victim erased sameBlocks sameOwed =>
        rw [erased] at found
        exact .inl (lookup_of_lookup_erase found)
    | @take removed removedEntry present erased noBlocks blocks owesNone =>
        rw [erased] at found
        exact .inl (lookup_of_lookup_erase found)
  · intro request member key entry owes
    rcases List.mem_or_eq_of_mem_set member with old | rfl
    · exact ⟨request, old, owes⟩
    · refine ⟨_, inFlight, ?_⟩
      cases effect with
      | keep sameMap sameBlocks sameOwed => exact sameOwed ▸ owes
      | put owed blocks isInserted noBlocks owesNone => simp [owesNone] at owes
      | drop erased sameBlocks sameOwed => exact sameOwed ▸ owes
      | take present erased noBlocks blocks owesNone => simp [owesNone] at owes

/-- A Delete frees the next of its blocks. -/
theorem Sound.free (few : geometry.totalBlocks ≤ 2 ^ 32)
    (sound : agent.Sound platform geometry) {position : Nat} {blocks : List BlockLocation}
    (selected : agent.requests[position]? = some (.free blocks)) :
    (agent.step platform (.advance position)).Sound platform geometry := by
  have exclusive := step_exclusive platform few (.advance position) sound.exclusive
  have owesNone {left : List BlockLocation} :
      ∀ request ∈ agent.requests.set position (.free left), ∀ key entry,
        request.owed = some (key, entry) →
        ∃ earlier ∈ agent.requests, earlier.owed = some (key, entry) := by
    intro request member key entry owes
    rcases List.mem_or_eq_of_mem_set member with old | rfl
    · exact ⟨request, old, owes⟩
    · simp [LockedRequest.owed] at owes
  simp only [step, selected] at exclusive ⊢
  cases blocks with
  | nil => exact sound
  | cons location rest =>
      cases outcome : agent.allocator.deallocate (CacheService.localHandle location) with
      | error panic =>
          simp only [advance, outcome] at exclusive ⊢
          exact sound.of_same_bytes exclusive rfl rfl (fun _ _ found => .inl found) owesNone
      | ok freed =>
          simp only [advance, outcome] at exclusive ⊢
          obtain ⟨pool, poolFreed, rfl⟩ := BlockAllocator.deallocate_eq_ok outcome
          have region := (MemoryPool.deallocate_eq_ok poolFreed).2.2.2.2
          exact sound.of_same_bytes exclusive region rfl (fun _ _ found => .inl found) owesNone

/-- A request arrives that holds nothing. -/
theorem Sound.arrive {after : LockedAgent} {request : LockedRequest}
    (sound : agent.Sound platform geometry)
    (exclusive : Exclusive geometry after.allocator after.held)
    (same : after = { agent with requests := agent.requests ++ [request] })
    (owesNone : request.owed = none) : after.Sound platform geometry := by
  subst same
  refine sound.of_same_bytes exclusive rfl rfl (fun _ _ found => .inl found) ?_
  intro other member key entry owes
  rcases List.mem_append.mp member with old | new
  · exact ⟨other, old, owes⟩
  · rw [List.mem_singleton.mp new, owesNone] at owes
    cases owes

theorem step_sound (platform : Platform) (few : geometry.totalBlocks ≤ 2 ^ 32)
    (narrow : geometry.blockSize < 2 ^ 32) (agent : LockedAgent) (action : LockedAction)
    (sound : agent.Sound platform geometry) :
    (agent.step platform action).Sound platform geometry := by
  have exclusive := step_exclusive platform few action sound.exclusive
  cases action with
  | store key data now =>
      rcases outcome : agent.allocator.allocateAndWrite platform data with ⟨allocator, result⟩
      rcases result with panic | refused | ⟨location, handle⟩
      · have region : allocator.pool.region = agent.allocator.pool.region := by
          obtain ⟨-, unchanged | ⟨-, -, _, -, -, -, -, sameRegion⟩⟩ :=
            BlockAllocator.allocateAndWrite_eq_error outcome
          · rw [unchanged.2]
          · exact sameRegion
        simp only [step, outcome] at exclusive ⊢
        exact sound.of_same_bytes exclusive region rfl (fun _ _ found => .inl found)
          fun request member key entry owes => ⟨request, member, owes⟩
      · obtain ⟨rfl, -⟩ := BlockAllocator.allocateAndWrite_eq_none outcome
        simp only [step, outcome]
        exact sound
      · exact sound.store few narrow now outcome
  | lookup key => exact sound.arrive exclusive rfl rfl
  | delete key => exact sound.arrive exclusive rfl rfl
  | advance position =>
      cases selected : agent.requests[position]? with
      | none =>
          simp only [step, selected]
          exact sound
      | some request =>
          cases request with
          | call thread => exact sound.call few selected
          | free blocks => exact sound.free few selected

end Steps

end LockedAgent

/-! ## Runs -/

theorem LockedAgent.new_sound (platform : Platform) (geometry : Geometry) (nodeId : UInt32)
    (capacity : Nat) : (LockedAgent.new geometry nodeId capacity).Sound platform geometry := by
  have exclusive := new_exclusive geometry nodeId capacity
  refine ⟨exclusive, ?_, ?_⟩
  · intro key entry found
    cases found
  · intro request member
    cases member

/-- Lock by lock, whatever map and policy make of each other: no block is owned twice
among the free list, the map and the requests in flight, and every entry of the map has
the block of a Store of its own key and reads back as that Store's data. -/
theorem entries_read_back_lock_by_lock (platform : Platform) (geometry : Geometry)
    (nodeId : UInt32) (capacity : Nat) (few : geometry.totalBlocks ≤ 2 ^ 32)
    (narrow : geometry.blockSize < 2 ^ 32) (firstPool : geometry.poolId = 0)
    (actions : List LockedAction) :
    let agent := run (LockedAgent.step platform) (LockedAgent.new geometry nodeId capacity) actions
    (owners agent.allocator agent.held).Nodup ∧
      ∀ key entry, agent.index.map.lookup key = some entry →
        ∃ write ∈ agent.writes, write.key = key ∧ entry.blocks = [write.location] ∧
          CacheService.streamBlocks platform agent.allocator entry.blocks =
            [.ok ⟨some (.data write.data)⟩] := by
  intro agent
  have sound : agent.Sound platform geometry :=
    run_invariant (LockedAgent.step_sound platform few narrow)
      (LockedAgent.new_sound platform geometry nodeId capacity) actions
  refine ⟨sound.exclusive.nodup, ?_⟩
  intro key entry found
  obtain ⟨location, single, write, member, sameKey, rfl, placed, fits, short, holds⟩ :=
    sound.mapped key entry found
  refine ⟨write, member, sameKey, single, ?_⟩
  have geometryEq := sound.exclusive.geometryEq
  rw [← geometryEq] at firstPool fits placed holds
  have read : agent.allocator.readVerified platform (CacheService.localHandle write.location) =
      .ok (some write.data) :=
    BlockAllocator.readVerified_of_holds holds fits firstPool.symm placed.offsetEq short
  simp [single, CacheService.streamBlocks, read]

/-- A Delete untracks a key after the next Store has put it back: the entry is out of the
policy's reach and still reads back. -/
theorem entries_read_back_lock_by_lock_untracked :
    let actions : List LockedAction :=
      [.store (.ofByte 1) [7] 0, .advance 0, .advance 0, .advance 0, .advance 0,
        .delete (.ofByte 1), .advance 1, .store (.ofByte 1) [8] 0, .advance 2, .advance 2,
        .advance 2, .advance 2, .advance 1, .advance 1]
    let agent := run (LockedAgent.step Platform.release) (LockedAgent.new Geometry.twoBlocks 0 2)
      actions
    agent.index.map.keys = [.ofByte 1] ∧ agent.index.lru.keys = [] ∧
      (owners agent.allocator agent.held).Nodup ∧
      ∀ key entry, agent.index.map.lookup key = some entry →
        ∃ write ∈ agent.writes, write.key = key ∧ entry.blocks = [write.location] ∧
          CacheService.streamBlocks Platform.release agent.allocator entry.blocks =
            [.ok ⟨some (.data write.data)⟩] := by
  intro actions agent
  refine ⟨by decide +kernel, by decide +kernel, ?_⟩
  exact entries_read_back_lock_by_lock Platform.release Geometry.twoBlocks 0 2 (by decide)
    (by decide) rfl actions

end CmxRdma.Agent
