import Mathlib.Data.Finset.Max
import Mathlib.Data.Finset.Range
import Mathlib.Logic.Function.Basic
import Mathlib.Algebra.GroupWithZero.Nat
import CmxRdma.Lib.Transition

/-!
Contract: programs that take readers-writer locks which serve their callers in the
order they asked.

Owns: the locks, programs of lock operations with tests and calls to an environment,
systems of such programs in any interleaving, the discipline that says in which order a
program nests its locks, and what a deadlock says about that order.

Does not own: any particular lock or program.
-/

namespace CmxRdma.Lib.FairLocks

open CmxRdma.Lib.Transition

universe u v w

inductive Mode where
  | read
  | write
deriving DecidableEq

/-! ## Locks -/

/-- A lock is the line of those who hold it or wait for it, in the order they asked. -/
abbrev Line := List (Nat × Mode)

/-- The caller reads, and so does everybody before it in the line. -/
def shares : Line → Nat → Bool
  | [], _ => false
  | (first, mode) :: rest, caller => mode == .read && (first == caller || shares rest caller)

/-- The lock is the caller's: it is first in the line, or a reader behind readers. -/
def grants : Line → Nat → Bool
  | [], _ => false
  | (first, mode) :: rest, caller => first == caller || mode == .read && shares rest caller

def callers (line : Line) : List Nat := line.map Prod.fst

def leave (line : Line) (caller : Nat) : Line := line.filter fun entry => entry.1 != caller

/-- Somebody in the line has the lock. -/
theorem exists_grants {line : Line} {caller : Nat} (inLine : caller ∈ callers line) :
    ∃ holder ∈ callers line, grants line holder = true := by
  cases line with
  | nil => simp [callers] at inLine
  | cons first rest => exact ⟨first.1, by simp [callers], by simp [grants]⟩

theorem mem_callers_append {line : Line} {caller other : Nat} {mode : Mode} :
    other ∈ callers (line ++ [(caller, mode)]) ↔ other ∈ callers line ∨ other = caller := by
  simp [callers]

theorem mem_callers_leave {line : Line} {caller other : Nat} :
    other ∈ callers (leave line caller) ↔ other ∈ callers line ∧ other ≠ caller := by
  simp only [callers, leave, List.mem_map, List.mem_filter, bne_iff_ne]
  constructor
  · rintro ⟨entry, ⟨member, different⟩, rfl⟩
    exact ⟨⟨entry, member, rfl⟩, different⟩
  · rintro ⟨⟨entry, member, rfl⟩, different⟩
    exact ⟨entry, ⟨member, different⟩, rfl⟩

/-! ## Programs -/

section Programs

variable (Lock : Type u) (Data : Type v)

/-- What a caller does with locks and shared data. What a call to the environment
brings is the environment's choice. -/
inductive Program where
  | done
  | acquire (lock : Lock) (mode : Mode) (rest : Program)
  | release (lock : Lock) (rest : Program)
  | test (condition : Data → Bool) (yes no : Program)
  | update (change : Data → Data) (rest : Program)
  | call (answered failed : Program)

end Programs

variable {Label : Type w} {Lock : Type u} {Data : Type v}

/-- The steps a program has left at most. An acquisition has two: to join the line and
to leave it with the lock. -/
def Program.work : Program Lock Data → Nat
  | .done => 0
  | .acquire _ _ rest => rest.work + 2
  | .release _ rest => rest.work + 1
  | .test _ yes no => max yes.work no.work + 1
  | .update _ rest => rest.work + 1
  | .call answered failed => max answered.work failed.work + 1

/-- From a point where it holds `held`, the program takes a lock only when `order`
allows it after each lock it holds, releases only what it holds and ends with nothing. -/
def Program.Orderly [DecidableEq Lock] (order : Lock → Lock → Prop) :
    List Lock → Program Lock Data → Prop
  | held, .done => held = []
  | held, .acquire lock _ rest =>
      lock ∉ held ∧ (∀ other ∈ held, order other lock) ∧ rest.Orderly order (lock :: held)
  | held, .release lock rest => rest.Orderly order (held.filter (· ≠ lock))
  | held, .test _ yes no => yes.Orderly order held ∧ no.Orderly order held
  | held, .update _ rest => rest.Orderly order held
  | held, .call answered failed => answered.Orderly order held ∧ failed.Orderly order held

/-! ## Systems -/

/-- A running program: `queued` once it stands in the line of the lock it takes next. -/
structure Thread (Label : Type w) (Lock : Type u) (Data : Type v) where
  label : Label
  program : Program Lock Data
  queued : Bool

/-- The lock a program waits for. -/
def Thread.awaits (thread : Thread Label Lock Data) : Option Lock :=
  match thread.program, thread.queued with
  | .acquire lock _ _, true => some lock
  | _, _ => none

@[simp] theorem Thread.awaits_mk_false (label : Label) (program : Program Lock Data) :
    Thread.awaits ⟨label, program, false⟩ = none := by
  cases program <;> rfl

def Thread.finished (thread : Thread Label Lock Data) : Bool :=
  match thread.program with
  | .done => true
  | _ => false

theorem Thread.unfinished_of_awaits {thread : Thread Label Lock Data} {lock : Lock}
    (awaits : thread.awaits = some lock) : thread.finished = false := by
  obtain ⟨label, program, queued⟩ := thread
  cases program with
  | done => simp [Thread.awaits] at awaits
  | _ => rfl

/-- The steps a thread has left at most. -/
def Thread.work (thread : Thread Label Lock Data) : Nat :=
  thread.program.work - if thread.awaits.isSome then 1 else 0

structure System (Label : Type w) (Lock : Type u) (Data : Type v) where
  lines : Lock → Line
  data : Data
  threads : List (Thread Label Lock Data)

/-- A program starts, or the one in a given position takes its next step. -/
inductive Action (Label : Type w) where
  | start (label : Label)
  | advance (position : Nat) (answered : Bool)
deriving DecidableEq

namespace System

variable [DecidableEq Lock]

/-- One step of the thread in position `caller`. -/
def advance (system : System Label Lock Data) (caller : Nat) (answered : Bool)
    (thread : Thread Label Lock Data) : System Label Lock Data :=
  let become (program : Program Lock Data) (queued : Bool) : List (Thread Label Lock Data) :=
    system.threads.set caller ⟨thread.label, program, queued⟩
  match thread.program with
  | .done => system
  | .acquire lock mode rest =>
      if thread.queued then
        if grants (system.lines lock) caller then { system with threads := become rest false }
        else system
      else
        { system with
          lines := Function.update system.lines lock (system.lines lock ++ [(caller, mode)])
          threads := become thread.program true }
  | .release lock rest =>
      { system with
        lines := Function.update system.lines lock (leave (system.lines lock) caller)
        threads := become rest false }
  | .test condition yes no =>
      { system with threads := become (if condition system.data then yes else no) false }
  | .update change rest =>
      { system with data := change system.data, threads := become rest false }
  | .call yes no => { system with threads := become (if answered then yes else no) false }

def step (programs : Label → Program Lock Data) (system : System Label Lock Data) :
    Action Label → System Label Lock Data
  | .start label => { system with threads := system.threads ++ [⟨label, programs label, false⟩] }
  | .advance position answered =>
      match system.threads[position]? with
      | none => system
      | some thread => system.advance position answered thread

/-- The thread in this position waits for a lock that it does not get. -/
def blocked (system : System Label Lock Data) (position : Nat)
    (thread : Thread Label Lock Data) : Bool :=
  match thread.awaits with
  | none => false
  | some lock => !grants (system.lines lock) position

/-- Some program is unfinished and none of them can move. -/
def Stuck (system : System Label Lock Data) : Prop :=
  (∃ thread ∈ system.threads, thread.finished = false) ∧
    ∀ position thread, system.threads[position]? = some thread →
      thread.finished = true ∨ system.blocked position thread = true

instance (system : System Label Lock Data) : Decidable system.Stuck :=
  decidable_of_iff ((∃ thread ∈ system.threads, thread.finished = false) ∧
    ∀ position (_ : position < system.threads.length), ∀ thread ∈ system.threads[position]?,
      thread.finished = true ∨ system.blocked position thread = true) <| by
    refine and_congr_right fun _ => ⟨fun each position thread found => ?_, ?_⟩
    · exact each position (List.getElem?_eq_some_iff.mp found).1 thread found
    · exact fun each position _ thread found => each position thread found

/-- A program of this name is running. -/
def Running (system : System Label Lock Data) (label : Label) : Prop :=
  ∃ thread ∈ system.threads, thread.label = label ∧ thread.finished = false

instance [DecidableEq Label] (system : System Label Lock Data) (label : Label) :
    Decidable (system.Running label) :=
  inferInstanceAs (Decidable (∃ thread ∈ system.threads, _ ∧ _))

/-- The thread in this position stands in the line of a lock. -/
def InLine (system : System Label Lock Data) (position : Nat) (lock : Lock) : Prop :=
  position ∈ callers (system.lines lock)

/-! ## Discipline -/

/-- Where a thread stands in lines: in those of the locks it holds, and in that of the
lock it waits for. -/
structure Accounts (order : Lock → Lock → Prop) (system : System Label Lock Data)
    (position : Nat) (thread : Thread Label Lock Data) (held : List Lock) : Prop where
  orderly : thread.program.Orderly order held
  inLine : ∀ lock, system.InLine position lock ↔ lock ∈ held ∨ thread.awaits = some lock

/-- Every thread keeps to the order of its program, and the lines have only threads. -/
structure Disciplined (order : Label → Lock → Lock → Prop) (system : System Label Lock Data) :
    Prop where
  accounts : ∀ position thread, system.threads[position]? = some thread →
    ∃ held, system.Accounts (order thread.label) position thread held
  present : ∀ position lock, system.InLine position lock → position < system.threads.length

/-- What an effective step of one thread does. -/
structure Moves (order : Lock → Lock → Prop) (system system' : System Label Lock Data)
    (caller : Nat) (thread thread' : Thread Label Lock Data) : Prop where
  threads : system'.threads = system.threads.set caller thread'
  label : thread'.label = thread.label
  work : thread'.work < thread.work
  others : ∀ other lock, other ≠ caller → (system'.InLine other lock ↔ system.InLine other lock)
  accounts : ∀ held, system.Accounts order caller thread held →
    ∃ held', system'.Accounts order caller thread' held'

variable {order : Lock → Lock → Prop} {system : System Label Lock Data}

/-- A step that changes no line and goes on with `rest`. -/
theorem moves_of_same_lines {system' : System Label Lock Data} {caller : Nat}
    {thread : Thread Label Lock Data} {rest : Program Lock Data}
    (lines : system'.lines = system.lines)
    (threads : system'.threads = system.threads.set caller ⟨thread.label, rest, false⟩)
    (work : rest.work < thread.work)
    (orderly : ∀ held, thread.program.Orderly order held →
      rest.Orderly order (thread.awaits.toList ++ held)) :
    Moves order system system' caller thread ⟨thread.label, rest, false⟩ := by
  have same (position : Nat) (lock : Lock) :
      system'.InLine position lock ↔ system.InLine position lock := by
    rw [InLine, InLine, lines]
  refine ⟨threads, rfl, ?_, fun other lock _ => same other lock, ?_⟩
  · simpa [Thread.work] using work
  · intro held accounts
    refine ⟨thread.awaits.toList ++ held, orderly held accounts.orderly, ?_⟩
    intro lock
    rw [same, accounts.inLine, List.mem_append, Option.mem_toList, Thread.awaits_mk_false]
    simp [or_comm]

/-- A thread joins the line of the lock it takes next. -/
theorem moves_of_join {caller : Nat} {label : Label} {lock : Lock} {mode : Mode}
    {rest : Program Lock Data} (answered : Bool) :
    Moves order system (system.advance caller answered ⟨label, .acquire lock mode rest, false⟩)
      caller ⟨label, .acquire lock mode rest, false⟩ ⟨label, .acquire lock mode rest, true⟩ := by
  have inLine (position : Nat) (other : Lock) :
      (system.advance caller answered ⟨label, .acquire lock mode rest, false⟩).InLine position
        other ↔ system.InLine position other ∨ position = caller ∧ other = lock := by
    simp only [advance, Bool.false_eq_true, ↓reduceIte, InLine, Function.update_apply]
    by_cases same : other = lock
    · simp [same, mem_callers_append]
    · simp [same]
  refine ⟨rfl, rfl, ?_, ?_, ?_⟩
  · simp [Thread.work, Thread.awaits, Program.work]
  · intro other another different
    simp [inLine, different]
  · intro held accounts
    refine ⟨held, accounts.orderly, fun other => ?_⟩
    rw [inLine, accounts.inLine]
    simp [Thread.awaits, eq_comm]

/-- A thread leaves the line of a lock it holds. -/
theorem moves_of_release {caller : Nat} {label : Label} {lock : Lock} {queued : Bool}
    {rest : Program Lock Data} (answered : Bool) :
    Moves order system (system.advance caller answered ⟨label, .release lock rest, queued⟩)
      caller ⟨label, .release lock rest, queued⟩ ⟨label, rest, false⟩ := by
  have inLine (position : Nat) (other : Lock) :
      (system.advance caller answered ⟨label, .release lock rest, queued⟩).InLine position other ↔
        system.InLine position other ∧ ¬ (position = caller ∧ other = lock) := by
    simp only [advance, InLine, Function.update_apply]
    by_cases same : other = lock
    · simp [same, mem_callers_leave]
    · simp [same]
  refine ⟨rfl, rfl, ?_, ?_, ?_⟩
  · simp [Thread.work, Thread.awaits, Program.work]
  · intro other another different
    simp [inLine, different]
  · intro held accounts
    refine ⟨held.filter (· ≠ lock), accounts.orderly, fun other => ?_⟩
    rw [inLine, accounts.inLine]
    simp [Thread.awaits]

/-- A thread that is neither finished nor blocked moves. -/
theorem advance_moves {caller : Nat} {thread : Thread Label Lock Data} (answered : Bool)
    (unfinished : thread.finished = false) (free : system.blocked caller thread = false) :
    ∃ thread', Moves order system (system.advance caller answered thread) caller thread
      thread' := by
  obtain ⟨label, program, queued⟩ := thread
  cases program with
  | done => simp [Thread.finished] at unfinished
  | acquire lock mode rest =>
      cases queued with
      | true =>
          have granted : grants (system.lines lock) caller = true := by
            simpa [blocked, Thread.awaits] using free
          refine ⟨⟨label, rest, false⟩, moves_of_same_lines ?_ ?_ ?_ ?_⟩
          · simp [advance, granted]
          · simp [advance, granted]
          · simp [Thread.work, Thread.awaits, Program.work]
          · intro held orderly
            exact orderly.2.2
      | false => exact ⟨_, moves_of_join answered⟩
  | release lock rest => exact ⟨_, moves_of_release answered⟩
  | test condition yes no =>
      refine ⟨_, moves_of_same_lines rfl rfl ?_ ?_⟩
      · simp only [Thread.work, Thread.awaits, Program.work, Option.isSome_none,
          Bool.false_eq_true, if_false]
        split <;> omega
      · intro held orderly
        simp only [Thread.awaits]
        split
        · exact orderly.1
        · exact orderly.2
  | update change rest =>
      refine ⟨_, moves_of_same_lines rfl rfl ?_ ?_⟩
      · simp [Thread.work, Thread.awaits, Program.work]
      · intro held orderly
        exact orderly
  | call yes no =>
      refine ⟨_, moves_of_same_lines rfl rfl ?_ ?_⟩
      · simp only [Thread.work, Thread.awaits, Program.work, Option.isSome_none,
          Bool.false_eq_true, if_false]
        split <;> omega
      · intro held orderly
        simp only [Thread.awaits]
        split
        · exact orderly.1
        · exact orderly.2

/-- A thread that is finished or blocked does not. -/
theorem advance_of_idle {caller : Nat} {thread : Thread Label Lock Data} (answered : Bool)
    (idle : thread.finished = true ∨ system.blocked caller thread = true) :
    system.advance caller answered thread = system := by
  obtain ⟨label, program, queued⟩ := thread
  cases program with
  | done => rfl
  | acquire lock mode rest =>
      cases queued with
      | true =>
          have refused : grants (system.lines lock) caller = false := by
            simpa [blocked, Thread.finished, Thread.awaits] using idle
          simp [advance, refused]
      | false => simp [Thread.finished, blocked] at idle
  | release lock rest => simp [Thread.finished, blocked, Thread.awaits] at idle
  | test condition yes no => simp [Thread.finished, blocked, Thread.awaits] at idle
  | update change rest => simp [Thread.finished, blocked, Thread.awaits] at idle
  | call yes no => simp [Thread.finished, blocked, Thread.awaits] at idle

/-! ## Runs -/

section Runs

variable {programs : Label → Program Lock Data} {orders : Label → Lock → Lock → Prop}

/-- The thread that moves accounts for its own lines, and the others keep theirs. -/
theorem Moves.disciplined {system' : System Label Lock Data} {caller : Nat}
    {thread thread' : Thread Label Lock Data}
    (moves : Moves (orders thread.label) system system' caller thread thread')
    (found : system.threads[caller]? = some thread) (disciplined : system.Disciplined orders) :
    system'.Disciplined orders := by
  have inside := (List.getElem?_eq_some_iff.mp found).1
  constructor
  · intro position other otherFound
    rw [moves.threads] at otherFound
    by_cases same : position = caller
    · subst same
      rw [List.getElem?_set_self inside, Option.some.injEq] at otherFound
      subst otherFound
      obtain ⟨held, accounts⟩ := disciplined.accounts position thread found
      rw [moves.label]
      exact moves.accounts held accounts
    · rw [List.getElem?_set_ne (Ne.symm same)] at otherFound
      obtain ⟨held, accounts⟩ := disciplined.accounts position other otherFound
      refine ⟨held, accounts.orderly, fun lock => ?_⟩
      rw [moves.others position lock same]
      exact accounts.inLine lock
  · intro position lock inLine
    rw [moves.threads, List.length_set]
    by_cases same : position = caller
    · rw [same]
      exact inside
    · exact disciplined.present position lock ((moves.others position lock same).mp inLine)

theorem step_disciplined (orderly : ∀ label, (programs label).Orderly (orders label) [])
    (system : System Label Lock Data) (action : Action Label)
    (disciplined : system.Disciplined orders) :
    (system.step programs action).Disciplined orders := by
  cases action with
  | start label =>
      constructor
      · intro position thread found
        simp only [step, List.getElem?_append] at found
        split at found
        · obtain ⟨held, accounts⟩ := disciplined.accounts position thread found
          exact ⟨held, accounts.orderly, accounts.inLine⟩
        · next outside =>
            obtain rfl := List.mem_singleton.mp (List.mem_of_getElem? found)
            refine ⟨[], orderly label, fun lock => iff_of_false ?_ (by simp)⟩
            intro inLine
            exact outside (disciplined.present position lock inLine)
      · intro position lock inLine
        have before := disciplined.present position lock inLine
        simp only [step, List.length_append]
        omega
  | advance position answered =>
      simp only [step]
      cases found : system.threads[position]? with
      | none => exact disciplined
      | some thread =>
          by_cases idle : thread.finished = true ∨ system.blocked position thread = true
          · simp only [advance_of_idle answered idle]
            exact disciplined
          · rw [not_or, Bool.not_eq_true, Bool.not_eq_true] at idle
            obtain ⟨thread', moves⟩ := advance_moves answered idle.1 idle.2
            exact moves.disciplined found disciplined

/-- Along every run. -/
theorem run_disciplined (orderly : ∀ label, (programs label).Orderly (orders label) [])
    (data : Data) (actions : List (Action Label)) :
    (run (step programs) ⟨fun _ => [], data, []⟩ actions).Disciplined orders := by
  apply run_invariant (step_disciplined orderly)
  constructor
  · intro position thread found
    simp at found
  · intro position lock inLine
    simp [InLine, callers] at inLine

end Runs

/-! ## Deadlocks -/

section Deadlocks

variable {orders : Label → Lock → Lock → Prop}

omit [DecidableEq Lock] in
theorem awaits_of_blocked {position : Nat} {thread : Thread Label Lock Data}
    (blocked : system.blocked position thread = true) :
    ∃ lock, thread.awaits = some lock ∧ grants (system.lines lock) position = false := by
  unfold System.blocked at blocked
  cases awaits : thread.awaits with
  | none => simp [awaits] at blocked
  | some lock => exact ⟨lock, rfl, by simpa [awaits] using blocked⟩

/-- A thread that waits has taken its locks in order. -/
theorem Accounts.order_of_awaits {position : Nat} {thread : Thread Label Lock Data}
    {held : List Lock} {lock other : Lock} (accounts : system.Accounts order position thread held)
    (awaits : thread.awaits = some lock) (holds : other ∈ held) : order other lock := by
  obtain ⟨label, program, queued⟩ := thread
  have orderly := accounts.orderly
  cases program with
  | acquire next mode rest =>
      cases queued with
      | true =>
          obtain rfl := Option.some.inj awaits
          exact orderly.2.1 other holds
      | false => simp at awaits
  | _ => simp [Thread.awaits] at awaits

/-- A finished thread stands in no line. -/
theorem Accounts.not_inLine_of_finished {position : Nat} {thread : Thread Label Lock Data}
    {held : List Lock} (accounts : system.Accounts order position thread held)
    (finished : thread.finished = true) (lock : Lock) : ¬ system.InLine position lock := by
  obtain ⟨label, program, queued⟩ := thread
  rw [accounts.inLine]
  cases program with
  | done =>
      have none : held = [] := accounts.orderly
      simp [none, Thread.awaits]
  | _ => simp [Thread.finished] at finished

/-- In a deadlock whoever has a lock that somebody waits for waits for another. -/
theorem exists_holder_of_stuck (disciplined : system.Disciplined orders) (stuck : system.Stuck)
    {position : Nat} {thread : Thread Label Lock Data} {lock : Lock}
    (found : system.threads[position]? = some thread) (awaits : thread.awaits = some lock) :
    ∃ holder held next, system.threads[holder]? = some held ∧ held.awaits = some next ∧
      system.InLine holder lock ∧ orders held.label lock next := by
  obtain ⟨_, accounts⟩ := disciplined.accounts position thread found
  have waitsInLine : system.InLine position lock := (accounts.inLine lock).mpr (.inr awaits)
  obtain ⟨holder, inLine, granted⟩ := exists_grants waitsInLine
  have inside := disciplined.present holder lock inLine
  have holderFound : system.threads[holder]? = some system.threads[holder] :=
    List.getElem?_eq_getElem inside
  obtain ⟨held, holderAccounts⟩ := disciplined.accounts holder _ holderFound
  rcases stuck.2 holder _ holderFound with finished | blocked
  · exact absurd inLine (holderAccounts.not_inLine_of_finished finished lock)
  · obtain ⟨next, holderAwaits, refused⟩ := awaits_of_blocked blocked
    refine ⟨holder, _, next, holderFound, holderAwaits, inLine, ?_⟩
    -- it was granted this lock, so it is not the one it waits for
    rcases (holderAccounts.inLine lock).mp inLine with holds | waits
    · exact holderAccounts.order_of_awaits holderAwaits holds
    · obtain rfl := Option.some.inj (holderAwaits.symm.trans waits)
      rw [granted] at refused
      cases refused

/-- The rank of the lock that the thread in a position waits for. -/
def awaitedRank (rank : Lock → Nat) (system : System Label Lock Data) (position : Nat) : Nat :=
  ((system.threads[position]?.bind Thread.awaits).map rank).getD 0

/-- In a deadlock somebody takes its locks against the ranking, whatever the ranking. -/
theorem exists_inversion_of_stuck (disciplined : system.Disciplined orders)
    (stuck : system.Stuck) (rank : Lock → Nat) :
    ∃ position thread lock next, system.threads[position]? = some thread ∧
      thread.awaits = some next ∧ system.InLine position lock ∧
      orders thread.label lock next ∧ rank next ≤ rank lock := by
  let waiting := (Finset.range system.threads.length).filter fun position =>
    (system.threads[position]?.bind Thread.awaits).isSome
  have isWaiting {position : Nat} {thread : Thread Label Lock Data} {lock : Lock}
      (found : system.threads[position]? = some thread) (awaits : thread.awaits = some lock) :
      position ∈ waiting := by
    have inside := (List.getElem?_eq_some_iff.mp found).1
    rw [Finset.mem_filter, Finset.mem_range, found, Option.bind_some, awaits]
    exact ⟨inside, rfl⟩
  have someWaits : waiting.Nonempty := by
    obtain ⟨thread, member, unfinished⟩ := stuck.1
    obtain ⟨position, found⟩ := List.mem_iff_getElem?.mp member
    obtain ⟨lock, awaits, -⟩ := awaits_of_blocked
      ((stuck.2 position thread found).resolve_left (by simp [unfinished]))
    exact ⟨position, isWaiting found awaits⟩
  obtain ⟨highest, member, isHighest⟩ :=
    Finset.exists_max_image waiting (system.awaitedRank rank) someWaits
  obtain ⟨-, awaiting⟩ := Finset.mem_filter.mp member
  obtain ⟨lock, thread, found, awaits⟩ : ∃ lock thread, system.threads[highest]? = some thread ∧
      thread.awaits = some lock := by
    obtain ⟨lock, bound⟩ := Option.isSome_iff_exists.mp awaiting
    obtain ⟨thread, found, awaits⟩ := Option.bind_eq_some_iff.mp bound
    exact ⟨lock, thread, found, awaits⟩
  obtain ⟨holder, held, next, holderFound, holderAwaits, inLine, inOrder⟩ :=
    exists_holder_of_stuck disciplined stuck found awaits
  refine ⟨holder, held, lock, next, holderFound, holderAwaits, inLine, inOrder, ?_⟩
  have bounded := isHighest holder (isWaiting holderFound holderAwaits)
  simpa [awaitedRank, found, awaits, holderFound, holderAwaits] using bounded

end Deadlocks

/-! ## Termination -/

section Termination

variable (programs : Label → Program Lock Data)

def work (system : System Label Lock Data) : Nat := (system.threads.map Thread.work).sum

/-- The action is a step of a thread that can move. -/
def Effective (system : System Label Lock Data) : Action Label → Prop
  | .start _ => False
  | .advance position _ => ∃ thread ∈ system.threads[position]?,
      thread.finished = false ∧ system.blocked position thread = false

instance (system : System Label Lock Data) :
    (action : Action Label) → Decidable (system.Effective action)
  | .start _ => inferInstanceAs (Decidable False)
  | .advance position _ =>
      inferInstanceAs (Decidable (∃ thread ∈ system.threads[position]?, _ ∧ _))

theorem work_step_lt {action : Action Label} (effective : system.Effective action) :
    (system.step programs action).work < system.work := by
  cases action with
  | start label => exact effective.elim
  | advance position answered =>
      obtain ⟨thread, found, unfinished, free⟩ := effective
      rw [Option.mem_def] at found
      obtain ⟨inside, rfl⟩ := List.getElem?_eq_some_iff.mp found
      obtain ⟨thread', moves⟩ : ∃ thread', Moves (fun _ _ => True) system
          (system.advance position answered _) position _ thread' :=
        advance_moves answered unfinished free
      have before := ((List.getElem_cons_eraseIdx_perm inside).map Thread.work).sum_nat
      have after := ((List.set_perm_cons_eraseIdx inside thread').map Thread.work).sum_nat
      simp only [List.map_cons, List.sum_cons] at before after
      simp only [work, step, found, moves.threads]
      have less := moves.work
      omega

/-- Steps start no program. -/
theorem Effective.running_of_step {action : Action Label} (effective : system.Effective action)
    {label : Label} (running : (system.step programs action).Running label) :
    system.Running label := by
  cases action with
  | start label => exact effective.elim
  | advance position answered =>
      obtain ⟨mover, found, unfinished, free⟩ := effective
      rw [Option.mem_def] at found
      obtain ⟨mover', moves⟩ : ∃ mover', Moves (fun _ _ => True) system
          (system.advance position answered mover) position mover mover' :=
        advance_moves answered unfinished free
      obtain ⟨thread, member, isLabel, threadUnfinished⟩ := running
      simp only [step, found, moves.threads] at member
      rcases List.mem_or_eq_of_mem_set member with before | rfl
      · exact ⟨thread, before, isLabel, threadUnfinished⟩
      · exact ⟨mover, List.mem_of_getElem? found, moves.label.symm.trans isLabel, unfinished⟩

theorem running_of_effective_run {actions : List (Action Label)}
    (effective : Allows (step programs) Effective system actions) {label : Label}
    (running : (run (step programs) system actions).Running label) : system.Running label := by
  induction actions generalizing system with
  | nil => exact running
  | cons action rest inductionHypothesis =>
      exact effective.1.running_of_step programs (inductionHypothesis effective.2 running)

/-- A run of effective steps is no longer than the work there was. -/
theorem length_le_work {actions : List (Action Label)}
    (effective : Allows (step programs) Effective system actions) :
    actions.length + (run (step programs) system actions).work ≤ system.work := by
  induction actions generalizing system with
  | nil => simp
  | cons action rest inductionHypothesis =>
      have less := work_step_lt programs effective.1
      have others := inductionHypothesis effective.2
      simp only [List.length_cons, run_cons]
      omega

end Termination

end System

end CmxRdma.Lib.FairLocks
