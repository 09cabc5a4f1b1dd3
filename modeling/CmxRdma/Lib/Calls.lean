import Mathlib.Data.List.Perm.Basic
import Mathlib.Logic.Function.Iterate
import CmxRdma.Lib.Transition

/-!
Contract: calls in flight on one shared state.

Owns: systems whose calls take their atomic steps in any order, where a call in
flight comes from and how far its own steps bring it, calls that run with nothing in
between, and the rule that a fact about the shared state holds along a run exactly when
every step keeps it.

Does not own: any particular shared state or call.
-/

namespace CmxRdma.Lib.Calls

open CmxRdma.Lib.Transition

universe u v w

variable {Shared : Type u} {Thread : Type v} {Call : Type w}

/-- A shared state and the calls in flight on it. -/
structure InFlight (Shared : Type u) (Thread : Type v) where
  shared : Shared
  threads : List Thread

/-- A new call arrives, or the call in a given position takes its next step. -/
inductive Move (Call : Type w) where
  | call (call : Call)
  | advance (position : Nat)

/-- The move is a step of the call in the position. -/
def Move.advances (position : Nat) : Move Call → Bool
  | .call _ => false
  | .advance moved => moved == position

/-- Every step of a call meets the condition. -/
def Meets (Allowed : Shared → Thread → Prop) (system : InFlight Shared Thread) :
    Move Call → Prop
  | .call _ => True
  | .advance position => ∀ thread ∈ system.threads[position]?, Allowed system.shared thread

section Step

variable (start : Call → Thread) (advance : Shared → Thread → Shared × Thread)

def step (system : InFlight Shared Thread) : Move Call → InFlight Shared Thread
  | .call call => { system with threads := system.threads ++ [start call] }
  | .advance position =>
      match system.threads[position]? with
      | none => system
      | some thread =>
          { shared := (advance system.shared thread).1
            threads := system.threads.set position (advance system.shared thread).2 }

/-- Where a call in flight comes from: it stood there before the step, it has just
arrived, or it is what its own step made of it. -/
theorem thread_of_step {system : InFlight Shared Thread} {move : Move Call} {position : Nat}
    {thread : Thread} (found : (step start advance system move).threads[position]? = some thread) :
    (system.threads[position]? = some thread ∧ move ≠ .advance position) ∨
      (∃ call, move = .call call ∧ thread = start call) ∨
      ∃ earlier, move = .advance position ∧ system.threads[position]? = some earlier ∧
        thread = (advance system.shared earlier).2 := by
  cases move with
  | call call =>
      simp only [step, List.getElem?_append] at found
      split_ifs at found with old
      · exact Or.inl ⟨found, by simp⟩
      · exact Or.inr (Or.inl ⟨call, rfl, List.mem_singleton.mp (List.mem_of_getElem? found)⟩)
  | advance moved =>
      by_cases same : moved = position
      · subst same
        cases selected : system.threads[moved]? with
        | none =>
            simp only [step, selected] at found
            cases found
        | some earlier =>
            have inside := (List.getElem?_eq_some_iff.mp selected).1
            simp only [step, selected, List.getElem?_set_self inside] at found
            exact Or.inr (Or.inr ⟨earlier, rfl, rfl, (Option.some.inj found).symm⟩)
      · refine Or.inl ⟨?_, fun isAdvance => same (Move.advance.inj isAdvance)⟩
        cases selected : system.threads[moved]? with
        | none => simpa only [step, selected] using found
        | some earlier => simpa only [step, selected, List.getElem?_set_ne same] using found

/-- `count` steps of one call with nothing in between. -/
def alone (count : Nat) (shared : Shared) (thread : Thread) : Shared × Thread :=
  (fun pair => advance pair.1 pair.2)^[count] (shared, thread)

theorem alone_succ (count : Nat) (shared : Shared) (thread : Thread) :
    alone advance (count + 1) shared thread =
      alone advance count (advance shared thread).1 (advance shared thread).2 := rfl

theorem alone_add (later first : Nat) (shared : Shared) (thread : Thread) :
    alone advance (later + first) shared thread =
      alone advance later (alone advance first shared thread).1
        (alone advance first shared thread).2 :=
  Function.iterate_add_apply _ later first (shared, thread)

/-! ## The moving call and the others -/

@[simp] theorem shared_call (system : InFlight Shared Thread) (call : Call) :
    (step start advance system (.call call)).shared = system.shared := rfl

/-- A call that arrives joins the others. -/
theorem threads_call (system : InFlight Shared Thread) (call : Call) :
    (start call :: system.threads).Perm (step start advance system (.call call)).threads :=
  (List.perm_append_singleton (start call) system.threads).symm

/-- A call that moves stands in front of the same others before and after its step. -/
theorem threads_advance {system : InFlight Shared Thread} {position : Nat} {thread : Thread}
    (selected : system.threads[position]? = some thread) :
    ∃ others, system.threads.Perm (thread :: others) ∧
      (step start advance system (.advance position)).shared =
        (advance system.shared thread).1 ∧
      ((advance system.shared thread).2 :: others).Perm
        (step start advance system (.advance position)).threads := by
  obtain ⟨inside, rfl⟩ := List.getElem?_eq_some_iff.mp selected
  refine ⟨system.threads.eraseIdx position, (List.getElem_cons_eraseIdx_perm inside).symm, ?_, ?_⟩
  · simp only [step, selected]
  · simp only [step, selected]
    exact (List.set_perm_cons_eraseIdx inside _).symm

theorem step_advance_of_none {system : InFlight Shared Thread} {position : Nat}
    (nobody : system.threads[position]? = none) :
    step start advance system (.advance position) = system := by
  simp only [step, nobody]

/-! ## Progress of one call -/

/-- A call in flight stays in its position, and only its own steps change it. -/
theorem thread_step {system : InFlight Shared Thread} {position : Nat} {thread : Thread}
    (selected : system.threads[position]? = some thread) (move : Move Call) :
    (step start advance system move).threads[position]? =
      some (if move.advances position then (advance system.shared thread).2 else thread) := by
  have inside := (List.getElem?_eq_some_iff.mp selected).1
  cases move with
  | call call =>
      simp only [step, Move.advances]
      rw [List.getElem?_append_left inside, selected]
      rfl
  | advance moved =>
      by_cases same : moved = position
      · subst same
        simp [step, selected, Move.advances, List.getElem?_set_self inside]
      · simp only [Move.advances, beq_eq_false_iff_ne.mpr same]
        cases other : system.threads[moved]? with
        | none => simp [step, other, selected]
        | some earlier => simp [step, other, List.getElem?_set_ne same, selected]

/-- A call whose own steps lower a measure has the measure lowered by as many steps as
it was given. -/
theorem measure_run {Kind : Thread → Prop} {measure : Thread → Nat}
    (lowers : ∀ shared thread, Kind thread →
      Kind (advance shared thread).2 ∧ measure (advance shared thread).2 ≤ measure thread - 1)
    {system : InFlight Shared Thread} {position : Nat} {thread : Thread}
    (selected : system.threads[position]? = some thread) (kind : Kind thread)
    (moves : List (Move Call)) :
    ∃ later, (run (step start advance) system moves).threads[position]? = some later ∧
      Kind later ∧ measure later ≤ measure thread - moves.countP (Move.advances position) := by
  induction moves generalizing system thread with
  | nil => exact ⟨thread, selected, kind, le_refl _⟩
  | cons move rest inductionHypothesis =>
      have moved := thread_step start advance selected move
      cases own : move.advances position with
      | false =>
          rw [own, if_neg Bool.false_ne_true] at moved
          simpa [own] using inductionHypothesis moved kind
      | true =>
          rw [own, if_pos rfl] at moved
          have lowered := lowers system.shared thread kind
          obtain ⟨later, found, laterKind, below⟩ := inductionHypothesis moved lowered.1
          refine ⟨later, found, laterKind, ?_⟩
          rw [List.countP_cons_of_pos own]
          omega

section Law

variable {advance} {Good : Shared → Prop} {Allowed : Shared → Thread → Prop}

/-- A fact about the shared state survives a step of the system exactly when it
survives the step of the call that moves. -/
theorem good_step_iff
    (survives : ∀ shared thread, Good shared →
      (Good (advance shared thread).1 ↔ Allowed shared thread))
    {system : InFlight Shared Thread} (good : Good system.shared) (move : Move Call) :
    Good (step start advance system move).shared ↔ Meets Allowed system move := by
  cases move with
  | call call => exact iff_of_true good trivial
  | advance position =>
      cases selected : system.threads[position]? with
      | none =>
          simp only [step, Meets, selected]
          exact iff_of_true good (by simp)
      | some thread =>
          simp only [step, Meets, selected]
          simpa using survives system.shared thread good

/-- What no call's step changes about the shared state, no run changes. -/
theorem good_run (keeps : ∀ shared thread, Good shared → Good (advance shared thread).1)
    {system : InFlight Shared Thread} (good : Good system.shared) (moves : List (Move Call)) :
    Good (run (step start advance) system moves).shared := by
  have always : ∀ shared thread, Good shared → (Good (advance shared thread).1 ↔ True) :=
    fun shared thread held => iff_true_intro (keeps shared thread held)
  refine @run_invariant _ _ (step start advance) (fun system => Good system.shared) ?_ system good
    moves
  intro reached move held
  refine (good_step_iff start always held move).mpr ?_
  cases move with
  | call call => trivial
  | advance position => exact fun _ _ => trivial

/-- A fact about the shared state holds in every state of a run exactly when every step
keeps it. -/
theorem good_prefix_iff_allows
    (survives : ∀ shared thread, Good shared →
      (Good (advance shared thread).1 ↔ Allowed shared thread))
    {system : InFlight Shared Thread} (good : Good system.shared) (moves : List (Move Call)) :
    (∀ before after, moves = before ++ after →
        Good (run (step start advance) system before).shared) ↔
      Allows (step start advance) (Meets Allowed) system moves :=
  @forall_prefix_iff_allows _ _ (step start advance) (fun system => Good system.shared)
    (Meets Allowed) (fun _ move stillGood => good_step_iff start survives stillGood move) system
    good moves

end Law

end Step

end CmxRdma.Lib.Calls
