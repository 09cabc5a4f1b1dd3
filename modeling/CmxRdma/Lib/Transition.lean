import Mathlib.Data.List.Infix

/-!
Contract: deterministic transition systems driven by a list of events.

Owns: runs and their outputs, the invariant rule, the rule for runs whose
steps all meet a side condition, the rule that traces what holds at the end of
a run back to the step that brought it about, the forward-simulation rules
against a deterministic and against a relational abstract system, and runs of
steps that can fail.

Does not own: any particular state, event or output.
-/

namespace CmxRdma.Lib.Transition

universe u v w x

variable {State : Type u} {Event : Type v} {Out : Type w} {Abstract : Type x}

/-! ## Runs -/

/-- The state after a list of events. -/
def run (step : State → Event → State) (start : State) (events : List Event) :
    State :=
  events.foldl step start

@[simp] theorem run_nil (step : State → Event → State) (start : State) :
    run step start [] = start := rfl

@[simp] theorem run_cons (step : State → Event → State) (start : State)
    (event : Event) (rest : List Event) :
    run step start (event :: rest) = run step (step start event) rest := rfl

theorem run_append (step : State → Event → State) (start : State)
    (first second : List Event) :
    run step start (first ++ second) = run step (run step start first) second := by
  simp [run]

/-- What every step preserves, every run preserves. -/
theorem run_invariant {step : State → Event → State} {Invariant : State → Prop}
    (preserves : ∀ state event, Invariant state → Invariant (step state event))
    {start : State} (initial : Invariant start) (events : List Event) :
    Invariant (run step start events) := by
  induction events generalizing start with
  | nil => exact initial
  | cons event rest inductionHypothesis =>
      exact inductionHypothesis (preserves start event initial)

/-- Two systems driven by the same events stay related when every event of the
run keeps them so. -/
theorem run_related {step : State → Event → State} {abstractStep : Abstract → Event → Abstract}
    {Related : State → Abstract → Prop} {events : List Event}
    (keeps : ∀ state abstract, ∀ event ∈ events, Related state abstract →
      Related (step state event) (abstractStep abstract event))
    {state : State} {abstract : Abstract} (related : Related state abstract) :
    Related (run step state events) (run abstractStep abstract events) := by
  induction events generalizing state abstract with
  | nil => exact related
  | cons event rest inductionHypothesis =>
      refine inductionHypothesis ?_ (keeps state abstract event List.mem_cons_self related)
      intro laterState laterAbstract later member
      exact keeps laterState laterAbstract later (List.mem_cons_of_mem _ member)

/-- What every event of a run preserves, the run preserves. -/
theorem run_invariant_of_mem {step : State → Event → State} {Invariant : State → Prop}
    {events : List Event}
    (preserves : ∀ state, ∀ event ∈ events, Invariant state → Invariant (step state event))
    {start : State} (initial : Invariant start) : Invariant (run step start events) :=
  @run_related _ _ Unit step (fun _ _ => ()) (fun state _ => Invariant state) events
    (fun state _ => preserves state) start () initial

/-! ## Runs whose steps meet a side condition -/

/-- Every step of the run meets `Allowed` in the state it is taken from. -/
def Allows (step : State → Event → State) (Allowed : State → Event → Prop) :
    State → List Event → Prop
  | _, [] => True
  | state, event :: rest =>
      Allowed state event ∧ Allows step Allowed (step state event) rest

instance Allows.decidable (step : State → Event → State) (Allowed : State → Event → Prop)
    [∀ state event, Decidable (Allowed state event)] :
    (start : State) → (events : List Event) → Decidable (Allows step Allowed start events)
  | _, [] => .isTrue trivial
  | start, event :: rest =>
      haveI := Allows.decidable step Allowed (step start event) rest
      inferInstanceAs (Decidable (Allowed start event ∧ Allows step Allowed (step start event) rest))

theorem allows_append {step : State → Event → State}
    {Allowed : State → Event → Prop} (start : State) (first second : List Event) :
    Allows step Allowed start (first ++ second) ↔
      Allows step Allowed start first ∧
        Allows step Allowed (run step start first) second := by
  induction first generalizing start with
  | nil => simp [Allows]
  | cons event rest inductionHypothesis =>
      simp only [List.cons_append, Allows, run_cons, inductionHypothesis, and_assoc]

/-- What every allowed step preserves, every run of allowed steps preserves. -/
theorem run_invariant_of_allows {step : State → Event → State}
    {Allowed : State → Event → Prop} {Invariant : State → Prop}
    (preserves : ∀ state event, Allowed state event → Invariant state →
      Invariant (step state event))
    {start : State} (initial : Invariant start) {events : List Event}
    (allowed : Allows step Allowed start events) :
    Invariant (run step start events) := by
  induction events generalizing start with
  | nil => exact initial
  | cons event rest inductionHypothesis =>
      exact inductionHypothesis (preserves start event allowed.1 initial) allowed.2

/-- Where not every event is allowed, there is one that is not. -/
theorem exists_of_not_allows {step : State → Event → State} {Allowed : State → Event → Prop}
    {start : State} {events : List Event} (refused : ¬ Allows step Allowed start events) :
    ∃ before event after, events = before ++ event :: after ∧
      ¬ Allowed (run step start before) event := by
  induction events generalizing start with
  | nil => exact absurd trivial refused
  | cons event rest inductionHypothesis =>
      by_cases allowed : Allowed start event
      · obtain ⟨before, other, after, rfl, forbidden⟩ :=
          inductionHypothesis fun later => refused ⟨allowed, later⟩
        exact ⟨event :: before, other, after, rfl, forbidden⟩
      · exact ⟨[], event, rest, rfl, allowed⟩

/-- A condition on the events alone can be added. -/
theorem Allows.and_forall {step : State → Event → State} {Allowed : State → Event → Prop}
    {Holds : Event → Prop} {start : State} {events : List Event}
    (allowed : Allows step Allowed start events) (holds : ∀ event ∈ events, Holds event) :
    Allows step (fun state event => Allowed state event ∧ Holds event) start events := by
  induction events generalizing start with
  | nil => trivial
  | cons event rest inductionHypothesis =>
      exact ⟨⟨allowed.1, holds event List.mem_cons_self⟩,
        inductionHypothesis allowed.2 fun other member =>
          holds other (List.mem_cons_of_mem _ member)⟩

/-- Two conditions that agree wherever the run can go are met by the same runs. -/
theorem allows_congr {step : State → Event → State} {First Second : State → Event → Prop}
    {Invariant : State → Prop} {events : List Event}
    (preserves : ∀ state, ∀ event ∈ events, Invariant state → Invariant (step state event))
    (agree : ∀ state, ∀ event ∈ events, Invariant state → (First state event ↔ Second state event))
    {start : State} (initial : Invariant start) :
    Allows step First start events ↔ Allows step Second start events := by
  induction events generalizing start with
  | nil => exact Iff.rfl
  | cons event rest inductionHypothesis =>
      have later := inductionHypothesis
        (fun state other member => preserves state other (List.mem_cons_of_mem _ member))
        (fun state other member => agree state other (List.mem_cons_of_mem _ member))
        (preserves start event List.mem_cons_self initial)
      rw [Allows, Allows, agree start event List.mem_cons_self initial, later]

/-- A fact that, where it holds, survives exactly the allowed steps holds in every
state of a run exactly when every step of the run is allowed. -/
theorem forall_prefix_iff_allows {step : State → Event → State} {Good : State → Prop}
    {Allowed : State → Event → Prop}
    (survives : ∀ state event, Good state → (Good (step state event) ↔ Allowed state event))
    {start : State} (initial : Good start) (events : List Event) :
    (∀ before after, events = before ++ after → Good (run step start before)) ↔
      Allows step Allowed start events := by
  induction events generalizing start with
  | nil =>
      refine iff_of_true ?_ trivial
      intro before after split
      rw [(List.append_eq_nil_iff.mp split.symm).1]
      exact initial
  | cons event rest inductionHypothesis =>
      rw [Allows]
      constructor
      · intro good
        have afterFirst : Good (step start event) := good [event] rest rfl
        refine ⟨(survives start event initial).mp afterFirst,
          (inductionHypothesis afterFirst).mp ?_⟩
        intro before after split
        exact good (event :: before) after (by rw [split]; rfl)
      · rintro ⟨allowed, later⟩ before after split
        have afterFirst : Good (step start event) := (survives start event initial).mpr allowed
        cases before with
        | nil => exact initial
        | cons first others =>
            obtain ⟨rfl, rest⟩ := List.cons.inj split
            exact (inductionHypothesis afterFirst).mpr later others after rest

/-! ## What brought a fact about -/

/-- A fact that steps bring about and undo holds after a run exactly when it held
at the start and no step undid it, or some step brought it about and no later
step undid it. -/
theorem run_holds_iff {step : State → Event → State} {Holds : State → Prop}
    {Gains Loses : State → Event → Prop}
    (law : ∀ state event,
      Holds (step state event) ↔ Gains state event ∨ Holds state ∧ ¬ Loses state event)
    (start : State) (events : List Event) :
    Holds (run step start events) ↔
      Holds start ∧ Allows step (fun state event => ¬ Loses state event) start events ∨
      ∃ before event after, events = before ++ event :: after ∧
        Gains (run step start before) event ∧
        Allows step (fun state event => ¬ Loses state event)
          (run step start (before ++ [event])) after := by
  induction events generalizing start with
  | nil => simp [Allows]
  | cons event rest inductionHypothesis =>
      rw [run_cons, inductionHypothesis (step start event), law]
      constructor
      · rintro (⟨gained | ⟨held, kept⟩, allowed⟩ | ⟨before, later, after, rfl, gained, allowed⟩)
        · exact Or.inr ⟨[], event, rest, rfl, gained, allowed⟩
        · exact Or.inl ⟨held, kept, allowed⟩
        · exact Or.inr ⟨event :: before, later, after, rfl, gained, allowed⟩
      · rintro (⟨held, kept, allowed⟩ | ⟨before, later, after, split, gained, allowed⟩)
        · exact Or.inl ⟨Or.inr ⟨held, kept⟩, allowed⟩
        · cases before with
          | nil =>
              obtain ⟨rfl, rfl⟩ := List.cons.inj split
              exact Or.inl ⟨Or.inl gained, allowed⟩
          | cons first others =>
              obtain ⟨rfl, rfl⟩ := List.cons.inj split
              exact Or.inr ⟨others, later, after, rfl, gained, allowed⟩

/-! ## Outputs and simulation -/

/-- The state half of a step that also answers. -/
def next (step : State → Event → State × Out) (state : State) (event : Event) : State :=
  (step state event).1

/-- The answers given along a run, in order. -/
def outputs (step : State → Event → State × Out) : State → List Event → List Out
  | _, [] => []
  | state, event :: rest =>
      (step state event).2 :: outputs step (next step state event) rest

theorem outputs_append (step : State → Event → State × Out) (start : State)
    (first second : List Event) :
    outputs step start (first ++ second) =
      outputs step start first ++ outputs step (run (next step) start first) second := by
  induction first generalizing start with
  | nil => rfl
  | cons event rest inductionHypothesis =>
      rw [List.cons_append, outputs, outputs, inductionHypothesis, run_cons, List.cons_append]

@[simp] theorem outputs_length (step : State → Event → State × Out) (start : State)
    (events : List Event) : (outputs step start events).length = events.length := by
  induction events generalizing start with
  | nil => rfl
  | cons event rest inductionHypothesis =>
      rw [outputs, List.length_cons, inductionHypothesis, List.length_cons]

/-- The answer at a position is that of the state the calls before it lead to. -/
theorem outputs_getElem? (step : State → Event → State × Out) (start : State)
    (events : List Event) (position : Nat) :
    (outputs step start events)[position]? =
      events[position]?.map fun event =>
        (step (run (next step) start (events.take position)) event).2 := by
  induction events generalizing start position with
  | nil => rfl
  | cons event rest inductionHypothesis =>
      cases position with
      | zero => rfl
      | succ position =>
          rw [outputs, List.getElem?_cons_succ, inductionHypothesis, List.getElem?_cons_succ,
            List.take_succ_cons, run_cons]

/-- Two systems that move alike answer alike exactly when every step does. -/
theorem outputs_eq_iff_allows {first second : State → Event → State × Out}
    (sameNext : ∀ state event, (first state event).1 = (second state event).1)
    (start : State) (events : List Event) :
    outputs first start events = outputs second start events ↔
      Allows (next second) (fun state event => (first state event).2 = (second state event).2)
        start events := by
  induction events generalizing start with
  | nil => exact iff_of_true rfl trivial
  | cons event rest inductionHypothesis =>
      rw [outputs, outputs, List.cons.injEq, Allows, next, next, sameNext, inductionHypothesis]

/-- Forward simulation of a deterministic abstract system along a run of allowed
steps: related states answer alike and stay related. -/
theorem outputs_eq_of_allowed_simulation {step : State → Event → State × Out}
    {abstractStep : Abstract → Event → Abstract × Out}
    {Allowed : State → Event → Prop} {Related : State → Abstract → Prop}
    (simulates : ∀ state abstract event, Allowed state event → Related state abstract →
      (step state event).2 = (abstractStep abstract event).2 ∧
        Related (step state event).1 (abstractStep abstract event).1)
    {state : State} {abstract : Abstract} (related : Related state abstract)
    {events : List Event} (allowed : Allows (next step) Allowed state events) :
    outputs step state events = outputs abstractStep abstract events ∧
      Related (run (next step) state events) (run (next abstractStep) abstract events) := by
  induction events generalizing state abstract with
  | nil => exact ⟨rfl, related⟩
  | cons event rest inductionHypothesis =>
      obtain ⟨sameOutput, stillRelated⟩ := simulates state abstract event allowed.1 related
      obtain ⟨sameRest, relatedAtEnd⟩ := inductionHypothesis stillRelated allowed.2
      refine ⟨?_, relatedAtEnd⟩
      simp only [outputs, sameOutput, next]
      exact congrArg _ sameRest

theorem allows_of_forall {step : State → Event → State} {Allowed : State → Event → Prop}
    (always : ∀ state event, Allowed state event) (start : State) (events : List Event) :
    Allows step Allowed start events := by
  induction events generalizing start with
  | nil => trivial
  | cons event rest inductionHypothesis =>
      exact ⟨always start event, inductionHypothesis (step start event)⟩

/-- A simulation of every step answers every run alike. -/
theorem outputs_eq_of_simulation {step : State → Event → State × Out}
    {abstractStep : Abstract → Event → Abstract × Out}
    {Related : State → Abstract → Prop}
    (simulates : ∀ state abstract event, Related state abstract →
      (step state event).2 = (abstractStep abstract event).2 ∧
        Related (step state event).1 (abstractStep abstract event).1)
    {state : State} {abstract : Abstract} (related : Related state abstract)
    (events : List Event) :
    outputs step state events = outputs abstractStep abstract events ∧
      Related (run (next step) state events) (run (next abstractStep) abstract events) :=
  outputs_eq_of_allowed_simulation (fun state abstract event _ => simulates state abstract event)
    related (allows_of_forall (fun _ _ => trivial) state events)

/-- A run of a relational abstract system, with its answers. -/
inductive Trace (Step : Abstract → Event → Abstract → Out → Prop) :
    Abstract → List Event → Abstract → List Out → Prop where
  | nil (abstract : Abstract) : Trace Step abstract [] abstract []
  | cons {abstract middle final : Abstract} {event : Event} {out : Out}
      {rest : List Event} {outs : List Out}
      (first : Step abstract event middle out)
      (others : Trace Step middle rest final outs) :
      Trace Step abstract (event :: rest) final (out :: outs)

/-- Forward simulation of a relational abstract system through a view of the
answers: every concrete step is matched by an abstract one that shows the same
view. -/
theorem trace_of_simulation {Seen : Type*} {step : State → Event → State × Out}
    {view : Out → Seen} {Step : Abstract → Event → Abstract → Seen → Prop}
    {Related : State → Abstract → Prop}
    (simulates : ∀ state abstract event, Related state abstract →
      ∃ abstract', Step abstract event abstract' (view (step state event).2) ∧
        Related (step state event).1 abstract')
    {state : State} {abstract : Abstract} (related : Related state abstract)
    (events : List Event) :
    ∃ final, Trace Step abstract events final ((outputs step state events).map view) ∧
      Related (run (next step) state events) final := by
  induction events generalizing state abstract with
  | nil => exact ⟨abstract, Trace.nil abstract, related⟩
  | cons event rest inductionHypothesis =>
      obtain ⟨middle, first, stillRelated⟩ := simulates state abstract event related
      obtain ⟨final, others, relatedAtEnd⟩ := inductionHypothesis stillRelated
      exact ⟨final, Trace.cons first others, relatedAtEnd⟩

/-! ## Steps that can fail -/

/-- A run of steps that can fail, with its answers; the first failure ends it. -/
def attempt {Failure : Type*} (step : State → Event → Except Failure (State × Out)) :
    State → List Event → Except Failure (State × List Out)
  | state, [] => .ok (state, [])
  | state, event :: rest => do
      let (middle, out) ← step state event
      let (final, outs) ← attempt step middle rest
      return (final, out :: outs)

/-- A system whose steps succeed on related states, answer as the abstract one
does and stay related never fails along a run. -/
theorem attempt_of_simulation {Failure : Type*}
    {step : State → Event → Except Failure (State × Out)}
    {abstractStep : Abstract → Event → Abstract × Out} {Related : State → Abstract → Prop}
    (simulates : ∀ state abstract event, Related state abstract →
      ∃ state', step state event = .ok (state', (abstractStep abstract event).2) ∧
        Related state' (abstractStep abstract event).1)
    {state : State} {abstract : Abstract} (related : Related state abstract)
    (events : List Event) :
    ∃ final, attempt step state events = .ok (final, outputs abstractStep abstract events) ∧
      Related final (run (next abstractStep) abstract events) := by
  induction events generalizing state abstract with
  | nil => exact ⟨state, rfl, related⟩
  | cons event rest inductionHypothesis =>
      obtain ⟨middle, stepped, stillRelated⟩ := simulates state abstract event related
      obtain ⟨final, attempted, relatedAtEnd⟩ := inductionHypothesis stillRelated
      refine ⟨final, ?_, relatedAtEnd⟩
      simp only [attempt, stepped, bind, Except.bind, attempted]
      rfl

end CmxRdma.Lib.Transition
