import Mathlib.Algebra.GroupWithZero.Nat
import CmxRdma.Lib.Transition

/-!
Contract: amounts that add up along a run.

Owns: the sum of what each step of a run contributes, the rule that a measure
which every step balances is balanced by the whole run, and the rules for a
potential that pays for the steps.

Does not own: any particular state, event or amount.
-/

namespace CmxRdma.Lib.Balance

open CmxRdma.Lib.Transition

universe u v w

variable {State : Type u} {Event : Type v} {Out : Type w}

/-- The sum of the amounts of all steps, each in the state it is taken from. -/
def tally (step : State → Event → State) (amount : State → Event → Nat) :
    State → List Event → Nat
  | _, [] => 0
  | state, event :: rest => amount state event + tally step amount (step state event) rest

variable {step : State → Event → State} {gained lost amount : State → Event → Nat}

theorem tally_add (start : State) (events : List Event) :
    tally step (fun state event => gained state event + lost state event) start events =
      tally step gained start events + tally step lost start events := by
  induction events generalizing start with
  | nil => rfl
  | cons event rest inductionHypothesis =>
      rw [tally, tally, tally, inductionHypothesis]
      omega

theorem tally_mul (price : Nat) (start : State) (events : List Event) :
    tally step (fun state event => price * amount state event) start events =
      price * tally step amount start events := by
  induction events generalizing start with
  | nil => rfl
  | cons event rest inductionHypothesis =>
      rw [tally, tally, inductionHypothesis, Nat.mul_add]

/-- Amounts that do not depend on the state add up over the events. -/
theorem tally_of_events (amountOf : Event → Nat) (start : State) (events : List Event) :
    tally step (fun _ event => amountOf event) start events = (events.map amountOf).sum := by
  induction events generalizing start with
  | nil => rfl
  | cons event rest inductionHypothesis =>
      rw [tally, inductionHypothesis, List.map_cons, List.sum_cons]

theorem tally_congr {other : State → Event → Nat}
    (agree : ∀ state event, amount state event = other state event) (start : State)
    (events : List Event) : tally step amount start events = tally step other start events := by
  rw [show amount = other from funext fun state => funext (agree state)]

/-- What every step of a run balances, the run balances. -/
theorem balance_run_of_mem {Invariant : State → Prop} {measure : State → Nat}
    {events : List Event}
    (preserves : ∀ state, ∀ event ∈ events, Invariant state → Invariant (step state event))
    (balanced : ∀ state, ∀ event ∈ events, Invariant state →
      measure (step state event) + lost state event = measure state + gained state event)
    {start : State} (initial : Invariant start) :
    measure (run step start events) + tally step lost start events =
      measure start + tally step gained start events := by
  induction events generalizing start with
  | nil => rfl
  | cons event rest inductionHypothesis =>
      have first := balanced start event List.mem_cons_self initial
      have others := inductionHypothesis
        (fun state later member => preserves state later (List.mem_cons_of_mem _ member))
        (fun state later member => balanced state later (List.mem_cons_of_mem _ member))
        (preserves start event List.mem_cons_self initial)
      rw [run_cons, tally, tally]
      omega

theorem balance_run {Invariant : State → Prop} {measure : State → Nat}
    (preserves : ∀ state event, Invariant state → Invariant (step state event))
    (balanced : ∀ state event, Invariant state →
      measure (step state event) + lost state event = measure state + gained state event)
    {start : State} (initial : Invariant start) (events : List Event) :
    measure (run step start events) + tally step lost start events =
      measure start + tally step gained start events :=
  balance_run_of_mem (fun state event _ => preserves state event)
    (fun state event _ => balanced state event) initial

/-! ## Potentials -/

/-- Where every allowed step is paid for from a potential, a run of allowed steps spends
no more than the potential it starts with and what its events bring. -/
theorem potential_run_of_allows {Allowed : State → Event → Prop} {Invariant : State → Prop}
    {potential : State → Nat}
    (preserves : ∀ state event, Allowed state event → Invariant state →
      Invariant (step state event))
    (pays : ∀ state event, Allowed state event → Invariant state →
      potential (step state event) + lost state event ≤ potential state + gained state event)
    {start : State} (initial : Invariant start) {events : List Event}
    (allows : Allows step Allowed start events) :
    potential (run step start events) + tally step lost start events ≤
      potential start + tally step gained start events := by
  induction events generalizing start with
  | nil => exact Nat.le_refl _
  | cons event rest inductionHypothesis =>
      have first := pays start event allows.1 initial
      have others := inductionHypothesis (preserves start event allows.1 initial) allows.2
      rw [run_cons, tally, tally]
      omega

theorem potential_run {potential : State → Nat}
    (pays : ∀ state event,
      potential (step state event) + lost state event ≤ potential state + gained state event)
    (start : State) (events : List Event) :
    potential (run step start events) + tally step lost start events ≤
      potential start + tally step gained start events :=
  @potential_run_of_allows _ _ step gained lost (fun _ _ => True) (fun _ => True) potential
    (fun _ _ _ => id) (fun state event _ _ => pays state event) start trivial events
    (allows_of_forall (fun _ _ => trivial) start events)

/-- Rounds that lower a potential until the work is done, and leave it done, get it done
within as many rounds as there was potential. -/
theorem done_of_rounds {Invariant Done : State → Prop} {potential : State → Nat}
    {rounds : List (List Event)}
    (keeps : ∀ state, ∀ round ∈ rounds, Invariant state → Invariant (run step state round))
    (stays : ∀ state, ∀ round ∈ rounds, Done state → Done (run step state round))
    (lowers : ∀ state, ∀ round ∈ rounds, Invariant state → ¬ Done state →
      potential (run step state round) < potential state)
    (spent : ∀ state, potential state = 0 → Done state)
    {start : State} (initial : Invariant start ∧ (potential start ≤ rounds.length ∨ Done start)) :
    Done (run step start rounds.flatten) := by
  induction rounds generalizing start with
  | nil =>
      rcases initial.2 with empty | done
      · exact spent start (Nat.le_zero.mp empty)
      · exact done
  | cons round rest inductionHypothesis =>
      have member := List.mem_cons_self (a := round) (l := rest)
      rw [List.flatten_cons, run_append]
      apply inductionHypothesis
        (fun state later inRest => keeps state later (List.mem_cons_of_mem _ inRest))
        (fun state later inRest => stays state later (List.mem_cons_of_mem _ inRest))
        (fun state later inRest => lowers state later (List.mem_cons_of_mem _ inRest))
      refine ⟨keeps start round member initial.1, ?_⟩
      by_cases done : Done start
      · exact Or.inr (stays start round member done)
      · have enough := initial.2.resolve_right done
        have lowered := lowers start round member initial.1 done
        rw [List.length_cons] at enough
        exact Or.inl (by omega)

/-! ## Counters and budgets -/

/-- A counter that every step advances has been advanced by the sum. -/
theorem counter_run {Invariant : State → Prop} {counter : State → UInt64}
    (preserves : ∀ state event, Invariant state → Invariant (step state event))
    (advances : ∀ state event, Invariant state →
      counter (step state event) = counter state + UInt64.ofNat (amount state event))
    {start : State} (initial : Invariant start) (events : List Event) :
    counter (run step start events) =
      counter start + UInt64.ofNat (tally step amount start events) := by
  induction events generalizing start with
  | nil => exact (UInt64.add_zero _).symm
  | cons event rest inductionHypothesis =>
      rw [run_cons, inductionHypothesis (preserves start event initial),
        advances start event initial, tally, UInt64.ofNat_add, UInt64.add_assoc]

/-- An invariant that every allowed step keeps within the amount it spends, a run keeps
within the sum. -/
theorem budget_run {Allowed : State → Event → Prop} {Invariant : Nat → State → Prop}
    (preserves : ∀ spent state event, Allowed state event → Invariant spent state →
      Invariant (spent + amount state event) (step state event))
    {spent : Nat} {start : State} (initial : Invariant spent start) {events : List Event}
    (allows : Allows step Allowed start events) :
    Invariant (spent + tally step amount start events) (run step start events) := by
  induction events generalizing spent start with
  | nil => exact initial
  | cons event rest inductionHypothesis =>
      rw [tally, ← Nat.add_assoc, run_cons]
      exact inductionHypothesis (preserves spent start event allows.1 initial) allows.2

/-- Answers of one kind, counted step by step. -/
theorem tally_outputs (step : State → Event → State × Out) (kind : Out → Bool) (start : State)
    (events : List Event) :
    tally (next step) (fun state event => (kind (step state event).2).toNat) start events =
      (outputs step start events).countP kind := by
  induction events generalizing start with
  | nil => rfl
  | cons event rest inductionHypothesis =>
      rw [tally, inductionHypothesis, outputs, List.countP_cons, Nat.add_comm]
      cases kind (step start event).2 <;> rfl

end CmxRdma.Lib.Balance
