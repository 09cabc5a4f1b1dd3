import CmxRdma.Agent.Interleaving

/-!
Contract: the generations that Lookups of one key see while Stores of it run.

Owns: the generations a run's Lookups of a key return, the result that they never
decrease when no Store installs one below what was returned, and the Lookup that shows
a decrease when one does.

Does not own: what a generation is good for; see `Generations`.
-/

namespace CmxRdma.Agent

open CmxRdma.BlockStore
open CmxRdma.Lib.Transition
open CmxRdma.Memory

namespace System

/-- The generation ids of a local Lookup hit of a key. -/
def hits (key : PrefixHash) (system : System) : Action → List UInt64
  | .lookup looked =>
      if looked = key then
        match (system.index.lookup key).2 with
        | some entry => entry.blocks.map BlockLocation.generation
        | none => []
      else []
  | _ => []

/-- The generation ids the Lookups of a run return for a key, in order. -/
def seen (platform : Platform) (key : PrefixHash) (system : System) (actions : List Action) :
    List UInt64 :=
  (outputs (fun system action => (system.step platform action, system.hits key action)) system
    actions).flatten

/-- An agent and what the Lookups of a key have returned so far. -/
structure Watched where
  system : System
  returned : List UInt64

def Watched.step (platform : Platform) (key : PrefixHash) (watched : Watched) (action : Action) :
    Watched where
  system := watched.system.step platform action
  returned := watched.returned ++ watched.system.hits key action

/-- The step does not install a generation below one that a Lookup has returned. -/
def InstallsInOrder (key : PrefixHash) (watched : Watched) : Action → Prop
  | .storeInsert position _ =>
      ∀ pending ∈ watched.system.stores[position]?, pending.key = key →
        ∀ generation ∈ watched.returned, generation ≤ pending.location.generation
  | _ => True

instance (key : PrefixHash) (watched : Watched) (action : Action) :
    Decidable (InstallsInOrder key watched action) :=
  match action with
  | .storeInsert position _ =>
      -- over the list of what was returned, not over all values of the type
      letI (pending : PendingStore) :
          Decidable (∀ generation ∈ watched.returned, generation ≤ pending.location.generation) :=
        List.decidableBAll _ _
      inferInstanceAs (Decidable (∀ pending ∈ watched.system.stores[position]?,
        pending.key = key →
          ∀ generation ∈ watched.returned, generation ≤ pending.location.generation))
  | .storeWrite _ _ | .lookup _ | .getLookup _ | .getRead _ | .deleteRemove _ | .deleteFree _ =>
      inferInstanceAs (Decidable True)

variable {platform : Platform} {key : PrefixHash} {system : System}

/-- The handler's answer to a local hit carries these ids. -/
theorem hits_eq_of_local_hit {service : CacheService} {request : Proto.LookupRequest}
    {prefixHash : PrefixHash} {response : Proto.LookupResponse}
    (shown : system.Shows service) (parsed : parsePrefixHash request.prefixHash = .ok prefixHash)
    (answered : (service.lookup platform request).2 = .ok response)
    (isLocal : response.isLocal = true) :
    response.blocks.map Proto.BlockLocation.generationId =
      system.hits (compositeKey platform request.modelId prefixHash)
        (.lookup (compositeKey platform request.modelId prefixHash)) := by
  rw [hits, if_pos rfl, shown.index]
  simp only [CacheService.lookup, parsed] at answered
  rcases outcome : service.index.lookup (compositeKey platform request.modelId prefixHash) with
    ⟨index, found⟩
  rw [outcome] at answered
  cases found with
  | some entry =>
      obtain rfl := Except.ok.inj answered
      simp [CacheService.protoLocation, Function.comp_def]
  | none =>
      -- a remote hit and a miss are not local
      simp only at answered
      split at answered <;> cases answered <;> cases isLocal

theorem seen_cons (action : Action) (rest : List Action) :
    seen platform key system (action :: rest) =
      system.hits key action ++ seen platform key (system.step platform action) rest := rfl

theorem seen_append (first second : List Action) :
    seen platform key system (first ++ second) =
      seen platform key system first ++
        seen platform key (run (step platform) system first) second := by
  induction first generalizing system with
  | nil => rfl
  | cons action rest inductionHypothesis =>
      rw [List.cons_append, seen_cons, seen_cons, inductionHypothesis, run_cons,
        List.append_assoc]

/-- The entry of a key, if there is one, holds one location. -/
def SingleBlock (key : PrefixHash) (system : System) : Prop :=
  ∀ entry, system.index.map.lookup key = some entry → ∃ location, entry.blocks = [location]

theorem SingleBlock.step (single : system.SingleBlock key) (action : Action) :
    (system.step platform action).SingleBlock key := by
  intro entry found
  rcases lookup_index_step found with ⟨-, -, pending, -, -, -, rfl⟩ | old
  · exact ⟨pending.location, rfl⟩
  · exact single entry old

/-- The index holds a location under a key. -/
def Holds (key : PrefixHash) (system : System) (location : BlockLocation) : Prop :=
  ∃ createdAt, system.index.map.lookup key = some ⟨[location], createdAt⟩

theorem SingleBlock.hits_cases (single : system.SingleBlock key) (action : Action) :
    system.hits key action = [] ∨
      action = .lookup key ∧ ∃ location, system.Holds key location ∧
        system.hits key action = [location.generation] := by
  cases action with
  | lookup looked =>
      by_cases isKey : looked = key
      · subst isKey
        rw [hits, if_pos rfl, BlockIndex.lookup_snd]
        cases found : system.index.map.lookup looked with
        | none => exact Or.inl rfl
        | some entry =>
            obtain ⟨location, isSingle⟩ := single entry found
            refine Or.inr ⟨rfl, location, ⟨entry.createdAt, ?_⟩, ?_⟩
            · rw [found, ← isSingle]
            · simp [isSingle]
      · exact Or.inl (by rw [hits, if_neg isKey])
  | _ => exact Or.inl rfl

theorem Holds.hits {location : BlockLocation} (holds : system.Holds key location) :
    system.hits key (.lookup key) = [location.generation] := by
  obtain ⟨createdAt, found⟩ := holds
  rw [System.hits, if_pos rfl, BlockIndex.lookup_snd, found]
  rfl

/-- A location held after a step was held before it, or the step installs it. -/
theorem Holds.of_step {location : BlockLocation} {action : Action}
    (holds : (system.step platform action).Holds key location) :
    system.Holds key location ∨
      ∃ position now pending, action = .storeInsert position now ∧
        system.stores[position]? = some pending ∧ pending.key = key ∧
        pending.location = location := by
  obtain ⟨createdAt, found⟩ := holds
  rcases lookup_index_step found with ⟨position, now, pending, rfl, selected, isKey, isNew⟩ | old
  · refine Or.inr ⟨position, now, pending, rfl, selected, isKey, ?_⟩
    exact (List.cons.inj (congrArg IndexEntry.blocks isNew)).1.symm
  · exact Or.inl ⟨createdAt, old⟩

theorem Holds.unique {first second : BlockLocation} (holdsFirst : system.Holds key first)
    (holdsSecond : system.Holds key second) : first = second := by
  obtain ⟨createdAt, found⟩ := holdsFirst
  obtain ⟨otherCreatedAt, otherFound⟩ := holdsSecond
  rw [found, Option.some.injEq] at otherFound
  exact (List.cons.inj (congrArg IndexEntry.blocks otherFound)).1

/-! ## What was returned -/

/-- What was returned never decreases and is not newer than what the index holds. -/
structure InOrder (key : PrefixHash) (watched : Watched) : Prop where
  single : watched.system.SingleBlock key
  sorted : watched.returned.Pairwise (· ≤ ·)
  bound : ∀ location, watched.system.Holds key location →
    ∀ generation ∈ watched.returned, generation ≤ location.generation

theorem InOrder.step {watched : Watched} {action : Action}
    (installs : InstallsInOrder key watched action) (inOrder : InOrder key watched) :
    InOrder key (watched.step platform key action) := by
  -- a Lookup returns the generation of what the index holds
  have hitHeld : ∀ generation ∈ watched.system.hits key action, ∃ location,
      watched.system.Holds key location ∧ generation = location.generation := by
    intro generation member
    rcases inOrder.single.hits_cases action with nothing | ⟨-, location, holds, isHit⟩
    · rw [nothing] at member
      exact absurd member List.not_mem_nil
    · rw [isHit] at member
      exact ⟨location, holds, List.mem_singleton.mp member⟩
  refine ⟨inOrder.single.step action, ?_, ?_⟩
  · refine List.pairwise_append.mpr ⟨inOrder.sorted, ?_, ?_⟩
    · rcases inOrder.single.hits_cases action with nothing | ⟨-, location, -, isHit⟩
      · rw [nothing]
        exact List.Pairwise.nil
      · rw [isHit]
        exact List.pairwise_singleton _ _
    · intro earlier isEarlier generation isHit
      obtain ⟨location, holds, rfl⟩ := hitHeld generation isHit
      exact inOrder.bound location holds earlier isEarlier
  · intro location holds generation member
    rcases holds.of_step with held | ⟨position, now, pending, rfl, selected, isKey, rfl⟩
    · rcases List.mem_append.mp member with earlier | isHit
      · exact inOrder.bound location held generation earlier
      · obtain ⟨looked, heldToo, rfl⟩ := hitHeld generation isHit
        rw [heldToo.unique held]
        exact UInt64.le_refl _
    · have earlier : generation ∈ watched.returned := by
        simpa [Watched.step, hits] using member
      exact installs pending selected isKey generation earlier

/-- A Store that installs a generation below one that was returned shows the decrease to
a Lookup right after it. -/
theorem seen_of_install_out_of_order {actions : List Action} {position : Nat}
    {pending : PendingStore} {generation : UInt64}
    (returned : generation ∈ seen platform key system actions)
    (selected : (run (step platform) system actions).stores[position]? = some pending)
    (isKey : pending.key = key) (below : pending.location.generation < generation)
    (now : UInt64) :
    ¬ (seen platform key system (actions ++ [.storeInsert position now, .lookup key])).Pairwise
      (· ≤ ·) := by
  have installed : ((run (step platform) system actions).step platform
      (.storeInsert position now)).Holds key pending.location := by
    refine ⟨now, ?_⟩
    rw [index_map_step]
    simp only [selected, BlockIndex.lookup_insert, isKey, if_true]
  have shown : seen platform key system (actions ++ [.storeInsert position now, .lookup key]) =
      seen platform key system actions ++ [pending.location.generation] := by
    rw [seen_append, seen_cons, seen_cons, installed.hits]
    rfl
  rw [shown, List.pairwise_append]
  rintro ⟨-, -, sorted⟩
  exact absurd (sorted generation returned _ (List.mem_singleton_self _))
    (UInt64.not_le.mpr below)

end System

end CmxRdma.Agent
