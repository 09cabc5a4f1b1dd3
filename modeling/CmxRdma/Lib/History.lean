import CmxRdma.Lib.Transition
import Mathlib.Data.List.Induction
import Mathlib.Order.Bounds.Basic

/-!
Contract: what a finite history of events says about the present.

Owns: the past-time operator "since", its recurrence over the last event, the
rule that reads a state fact of a run off the run's history, the rule for facts
about histories that survive exactly the allowed steps, and the largest value a
measure has had along a run.

Does not own: any particular state or event.
-/

namespace CmxRdma.Lib.History

open CmxRdma.Lib.Transition

universe u v

variable {State : Type u} {Event : Type v}

/-- A prefix of a history with one more event is the whole of it or a prefix of the
shorter one. -/
theorem split_concat {events before after : List Event} {event : Event}
    (split : events ++ [event] = before ++ after) :
    before = events ++ [event] ∨ ∃ others, events = before ++ others := by
  rcases List.eq_nil_or_concat after with rfl | ⟨others, last, rfl⟩
  · rw [List.append_nil] at split
    exact Or.inl split.symm
  · rw [List.concat_eq_append, ← List.append_assoc] at split
    exact Or.inr ⟨others, (List.append_inj' split rfl).1⟩

/-- Some event of the history began it, seen from the events before, and no event
after that ended it. -/
def Since (Begins : List Event → Event → Prop) (Ends : Event → Prop) (events : List Event) : Prop :=
  ∃ before event after, events = before ++ event :: after ∧ Begins before event ∧
    ∀ later ∈ after, ¬ Ends later

variable {Begins : List Event → Event → Prop} {Ends : Event → Prop}

@[simp] theorem not_since_nil : ¬ Since Begins Ends [] := by
  rintro ⟨before, event, after, split, -⟩
  exact List.append_ne_nil_of_right_ne_nil before (List.cons_ne_nil event after) split.symm

/-- `Since` holds after one more event exactly when that event begins it, or it held
before and the event does not end it. -/
theorem since_concat (events : List Event) (event : Event) :
    Since Begins Ends (events ++ [event]) ↔
      Begins events event ∨ Since Begins Ends events ∧ ¬ Ends event := by
  constructor
  · rintro ⟨before, beginning, after, split, begins, lasts⟩
    -- the beginning is the last event, or it stands among the earlier ones
    rcases List.eq_nil_or_concat after with rfl | ⟨earlier, last, rfl⟩
    · obtain ⟨rfl, sameEvent⟩ := List.append_inj' split rfl
      rw [List.head_eq_of_cons_eq sameEvent]
      exact Or.inl begins
    · rw [List.concat_eq_append] at split lasts
      have regrouped : events ++ [event] = (before ++ beginning :: earlier) ++ [last] := by
        rw [split, List.append_assoc, List.cons_append]
      obtain ⟨rfl, sameEvent⟩ := List.append_inj' regrouped rfl
      rw [List.head_eq_of_cons_eq sameEvent]
      refine Or.inr ⟨⟨before, beginning, earlier, rfl, begins, ?_⟩, lasts last (by simp)⟩
      intro later member
      exact lasts later (List.mem_append_left _ member)
  · rintro (begins | ⟨⟨before, beginning, after, rfl, begins, lasts⟩, kept⟩)
    · exact ⟨events, event, [], rfl, begins, by simp⟩
    · refine ⟨before, beginning, after ++ [event], by simp, begins, ?_⟩
      intro later member
      rcases List.mem_append.mp member with earlier | last
      · exact lasts later earlier
      · rw [List.mem_singleton.mp last]
        exact kept

/-- A weaker beginning that fewer events end holds at least as long. -/
theorem Since.imp {Begins' : List Event → Event → Prop} {Ends' : Event → Prop}
    {events : List Event} (since : Since Begins Ends events)
    (begins : ∀ before event, Begins before event → Begins' before event)
    (ends : ∀ event, Ends' event → Ends event) : Since Begins' Ends' events := by
  obtain ⟨before, event, after, split, began, lasts⟩ := since
  exact ⟨before, event, after, split, begins before event began,
    fun later member ended => lasts later member (ends later ended)⟩

/-- A state fact that does not hold at the start, and that each step brings about or
undoes as the events say, is read off the history. -/
theorem run_iff_since {step : State → Event → State} {Holds : State → Prop}
    {Begins Ends : Event → Prop} {start : State} (initial : ¬ Holds start)
    (law : ∀ state event, Holds (step state event) ↔ Begins event ∨ Holds state ∧ ¬ Ends event)
    (events : List Event) :
    Holds (run step start events) ↔ Since (fun _ => Begins) Ends events := by
  induction events using List.reverseRecOn with
  | nil => exact iff_of_false initial not_since_nil
  | append_singleton events event inductionHypothesis =>
      rw [since_concat, ← inductionHypothesis, run_append]
      exact law (run step start events) event

/-- A fact about histories that, where it holds, survives exactly the allowed steps
holds of every prefix of a run exactly when every step of the run is allowed. -/
theorem forall_history_iff_allows {step : State → Event → State} {Good : List Event → Prop}
    {Allowed : State → Event → Prop} {start : State} (initial : Good [])
    (survives : ∀ events event, Good events →
      (Good (events ++ [event]) ↔ Allowed (run step start events) event))
    (events : List Event) :
    (∀ before after, events = before ++ after → Good before) ↔
      Allows step Allowed start events := by
  induction events using List.reverseRecOn with
  | nil =>
      refine iff_of_true ?_ trivial
      intro before after split
      rw [(List.append_eq_nil_iff.mp split.symm).1]
      exact initial
  | append_singleton events event inductionHypothesis =>
      rw [allows_append, ← inductionHypothesis]
      constructor
      · intro good
        have earlier : ∀ before after, events = before ++ after → Good before := by
          rintro before after rfl
          exact good before (after ++ [event]) (List.append_assoc _ _ _)
        refine ⟨earlier, ?_, trivial⟩
        exact (survives events event (earlier events [] (by simp))).mp (good _ [] (by simp))
      · rintro ⟨earlier, allowed, -⟩ before after split
        rcases split_concat split with rfl | ⟨others, shorter⟩
        · exact (survives events event (earlier events [] (by simp))).mpr allowed
        · exact earlier before others shorter

/-! ## The largest value so far -/

section Peak

variable {Out : Type*} (measure : State → Nat) (step : State → Event → State × Out)

/-- A step that also keeps the largest value a measure has had. -/
def peakStep (tracked : State × Nat) (event : Event) : (State × Nat) × Out :=
  (((step tracked.1 event).1, max tracked.2 (measure (step tracked.1 event).1)),
    (step tracked.1 event).2)

theorem outputs_peakStep (tracked : State × Nat) (events : List Event) :
    outputs (peakStep measure step) tracked events = outputs step tracked.1 events := by
  induction events generalizing tracked with
  | nil => rfl
  | cons event rest inductionHypothesis =>
      rw [outputs, outputs, inductionHypothesis]
      rfl

theorem run_peakStep_fst (tracked : State × Nat) (events : List Event) :
    (run (next (peakStep measure step)) tracked events).1 = run (next step) tracked.1 events := by
  induction events generalizing tracked with
  | nil => rfl
  | cons event rest inductionHypothesis => exact inductionHypothesis _

/-- Along a run it is the largest value of the measure over all prefixes. -/
theorem isGreatest_run_peakStep (start : State) (events : List Event) :
    IsGreatest {value | ∃ before after, events = before ++ after ∧
        value = measure (run (next step) start before)}
      (run (next (peakStep measure step)) (start, measure start) events).2 := by
  induction events using List.reverseRecOn with
  | nil =>
      refine ⟨⟨[], [], rfl, rfl⟩, ?_⟩
      rintro value ⟨before, after, split, rfl⟩
      rw [(List.append_eq_nil_iff.mp split.symm).1]
      exact le_rfl
  | append_singleton events event inductionHypothesis =>
      obtain ⟨⟨before, after, split, attained⟩, bound⟩ := inductionHypothesis
      have newPeak : (run (next (peakStep measure step)) (start, measure start)
            (events ++ [event])).2 =
          max (run (next (peakStep measure step)) (start, measure start) events).2
            (measure (run (next step) start (events ++ [event]))) := by
        rw [run_append, run_append, ← run_peakStep_fst measure step (start, measure start) events]
        rfl
      rw [newPeak]
      constructor
      · rcases Nat.le_total (measure (run (next step) start (events ++ [event])))
          (run (next (peakStep measure step)) (start, measure start) events).2 with below | above
        · rw [max_eq_left below]
          exact ⟨before, after ++ [event], by rw [split, List.append_assoc], attained⟩
        · rw [max_eq_right above]
          exact ⟨events ++ [event], [], (List.append_nil _).symm, rfl⟩
      · rintro value ⟨first, others, splitAll, rfl⟩
        rcases split_concat splitAll with rfl | ⟨middle, shorter⟩
        · exact le_max_right _ _
        · exact (bound ⟨first, middle, shorter, rfl⟩).trans (le_max_left _ _)

end Peak

end CmxRdma.Lib.History
