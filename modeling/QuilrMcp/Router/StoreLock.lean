import QuilrMcp.Library.Trace
import Mathlib.Logic.Function.Basic
import Mathlib.Tactic.Common

/-! The lock of `Store.execute`. The lock belongs to the task and the work to a thread,
and a thread runs on when its task is cancelled. -/
namespace QuilrMcp.Router.StoreLock
open Library.Trace

/-- Where a task stands: outside `execute`, before the lock, or awaiting the thread of a job. -/
inductive Stage
  | outside
  | waiting
  | awaiting (job : Nat)
  deriving DecidableEq

/-- `running` are the work functions on a thread, `transaction` the job whose transaction the
connection has open, and `nested` remembers a BEGIN inside another job's transaction. -/
structure Shared where
  stage : Nat → Stage
  holder : Option Nat
  running : List Nat
  transaction : Option Nat
  nextJob : Nat
  nested : Bool

def Shared.start : Shared := ⟨fun _ => .outside,none,[],none,0,false⟩

inductive Action
  | call (task : Nat)
  | acquire (task : Nat)
  | begin (job : Nat)
  | finish (job : Nat)
  | commitFails (job : Nat)
  | leave (task : Nat)
  | cancel (task : Nat)

def Shared.moved (state : Shared) (task : Nat) (stage : Stage) : Shared :=
  {state with stage := Function.update state.stage task stage}

/-- Between taking the lock and starting the thread nothing is awaited. A BEGIN inside an open
transaction raises, which ends the job; a COMMIT that fails leaves the transaction open. -/
def step (state : Shared) : Action → Option Shared
  | .call task => if state.stage task = .outside then some (state.moved task .waiting) else none
  | .acquire task =>
    if state.stage task = .waiting ∧ state.holder = none then
      some {state.moved task (.awaiting state.nextJob) with
        holder := some task, running := state.running ++ [state.nextJob], nextJob :=
          state.nextJob + 1}
    else none
  | .begin job =>
    if job ∈ state.running ∧ state.transaction ≠ some job then
      if state.transaction = none then some {state with transaction := some job}
      else some {state with nested := true, running := state.running.erase job}
    else none
  | .finish job =>
    if job ∈ state.running then
      some {state with
        running := state.running.erase job
        transaction := if state.transaction = some job then none else state.transaction}
    else none
  | .commitFails job =>
    if state.transaction = some job then some {state with running := state.running.erase job}
    else none
  | .leave task =>
    match state.stage task with
    | .awaiting job => if job ∈ state.running then none
        else some {state.moved task .outside with holder := none}
    | _ => none
  | .cancel task =>
    match state.stage task with
    | .awaiting _ => some {state.moved task .outside with holder := none}
    | .waiting => some (state.moved task .outside)
    | .outside => none

/-- What the lock is there for. -/
def OneAtATime (state : Shared) : Prop := state.running.length ≤ 1 ∧ state.nested = false

/-- No task is cancelled while the work it awaits is running, and no COMMIT fails. -/
def Orderly (state : Shared) : Action → Prop
  | .cancel task => ∀ job, state.stage task = .awaiting job → job ∉ state.running
  | .commitFails _ => False
  | _ => True

/-- The work that runs is the one the holder of the lock awaits. -/
structure Serial (state : Shared) : Prop where
  lone : state.running = [] ∨
    ∃ task job, state.running = [job] ∧ state.holder = some task ∧ state.stage task = .awaiting job
  held : ∀ task job, state.stage task = .awaiting job → state.holder = some task
  within : ∀ job, state.transaction = some job → job ∈ state.running
  flat : state.nested = false

theorem start_serial : Serial Shared.start := ⟨Or.inl rfl,nofun,nofun,rfl⟩

theorem Serial.oneAtATime {state : Shared} (serial : Serial state) : OneAtATime state := by
  refine ⟨?_,serial.flat⟩
  rcases serial.lone with none | ⟨task,job,one,-⟩
  · simp [none]
  · simp [one]

private theorem serial_idle {state : Shared} {task job : Nat} (serial : Serial state)
    (awaits : state.stage task = .awaiting job) (ended : job ∉ state.running) :
    state.running = [] := by
  rcases serial.lone with none | ⟨other,here,one,holds,awaited⟩
  · exact none
  · have same : other = task := Option.some.inj (holds.symm.trans (serial.held task job awaits))
    rw [same,awaits] at awaited
    obtain rfl : job = here := Stage.awaiting.inj awaited
    exact absurd (one ▸ List.mem_singleton_self job) ended

private theorem serial_released {state : Shared} {task job : Nat} (serial : Serial state)
    (awaits : state.stage task = .awaiting job) (ended : job ∉ state.running) :
    Serial {state.moved task .outside with holder := none} := by
  have none := serial_idle serial awaits ended
  refine ⟨Or.inl none,?_,serial.within,serial.flat⟩
  intro other here awaited
  by_cases same : other = task
  · simp [Shared.moved,same] at awaited
  · simp only [Shared.moved,Function.update_of_ne same] at awaited
    have holds := (serial.held other here awaited).symm.trans (serial.held task job awaits)
    exact absurd (Option.some.inj holds) same

private theorem serial_moved {state : Shared} {task : Nat} {stage : Stage} (serial : Serial state)
    (before : ∀ job, state.stage task ≠ .awaiting job) (after : ∀ job, stage ≠ .awaiting job) :
    Serial (state.moved task stage) := by
  refine ⟨?_,?_,serial.within,serial.flat⟩
  · rcases serial.lone with none | ⟨other,job,one,holds,awaits⟩
    · exact Or.inl none
    · have apart : other ≠ task := fun same => before job (same ▸ awaits)
      exact Or.inr ⟨other,job,one,holds,
        by simp only [Shared.moved,Function.update_of_ne apart,awaits]⟩
  · intro other job awaits
    by_cases same : other = task
    · subst other
      simp only [Shared.moved,Function.update_self] at awaits
      exact absurd awaits (after job)
    · simp only [Shared.moved,Function.update_of_ne same] at awaits
      exact serial.held other job awaits

private theorem serial_acquire {state : Shared} {task : Nat} (serial : Serial state)
    (free : state.holder = none) :
    Serial {state.moved task (.awaiting state.nextJob) with
      holder := some task, running := state.running ++ [state.nextJob], nextJob :=
        state.nextJob + 1} := by
  have none : state.running = [] := by
    rcases serial.lone with none | ⟨other,job,_,holds,_⟩
    · exact none
    · rw [free] at holds
      contradiction
  refine ⟨Or.inr ⟨task,state.nextJob,by rw [none,List.nil_append],rfl,by simp [Shared.moved]⟩,?_,
    ?_,serial.flat⟩
  · intro other job awaits
    by_cases same : other = task
    · rw [same]
    · simp only [Shared.moved,Function.update_of_ne same] at awaits
      have holds := serial.held other job awaits
      rw [free] at holds
      contradiction
  · intro job opened
    have stale := serial.within job opened
    rw [none] at stale
    contradiction

theorem step_serial (state : Shared) (action : Action) (next : Shared) (serial : Serial state)
    (orderly : Orderly state action) (taken : step state action = some next) : Serial next := by
  cases action with
  | call task =>
    simp only [step] at taken
    split_ifs at taken with idle
    cases taken
    exact serial_moved serial (by simp [idle]) (by simp)
  | acquire task =>
    simp only [step] at taken
    split_ifs at taken with ready
    cases taken
    exact serial_acquire serial ready.2
  | begin job =>
    simp only [step] at taken
    split_ifs at taken with ready free
    · cases taken
      exact ⟨serial.lone,serial.held,fun other same => Option.some.inj same ▸ ready.1,serial.flat⟩
    · obtain ⟨owner,opened⟩ := Option.ne_none_iff_exists'.mp free
      rcases serial.lone with none | ⟨task,one,alone,-⟩
      · exact absurd ready.1 (by simp [none])
      · have first : job = one := by simpa [alone] using ready.1
        have second : owner = one := by simpa [alone] using serial.within owner opened
        exact absurd (opened.trans (by rw [first,second])) ready.2
  | finish job =>
    by_cases ready : job ∈ state.running
    swap
    · rw [step,if_neg ready] at taken
      contradiction
    rw [step,if_pos ready] at taken
    cases taken
    rcases serial.lone with none | ⟨task,one,alone,-⟩
    · exact absurd ready (by simp [none])
    · have same : job = one := by simpa [alone] using ready
      have ended : state.running.erase job = [] := by simp [alone,same]
      refine ⟨Or.inl ended,serial.held,?_,serial.flat⟩
      intro other opened
      by_cases own : state.transaction = some job
      · simp [own] at opened
      · rw [if_neg own] at opened
        have member : other = one := by simpa [alone] using serial.within other opened
        exact absurd (opened.trans (by rw [member,same])) own
  | commitFails job => exact absurd orderly id
  | leave task =>
    simp only [step] at taken
    split at taken
    · rename_i job awaits
      split_ifs at taken with ended
      cases taken
      exact serial_released serial awaits ended
    · contradiction
  | cancel task =>
    simp only [step] at taken
    split at taken
    · rename_i job awaits
      cases taken
      exact serial_released serial awaits (orderly job awaits)
    · rename_i waits
      cases taken
      exact serial_moved serial (by simp [waits]) (by simp)
    · contradiction

/-- Cancelling a task whose work is running lets its next call, which may be its own cleanup,
start beside it. -/
theorem abandoned_overlaps (state : Shared) (task job : Nat)
    (awaits : state.stage task = .awaiting job) (running : job ∈ state.running) :
    ∃ next, run step state [.cancel task,.call task,.acquire task] = some next ∧
    2 ≤ next.running.length := by
  have some_ := List.length_pos_of_mem running
  let freed := {state.moved task .outside with holder := none}
  let next := {(freed.moved task .waiting).moved task (.awaiting state.nextJob) with
    holder := some task, running := state.running ++ [state.nextJob], nextJob := state.nextJob + 1}
  have cancelled : step state (.cancel task) = some freed := by rw [step,awaits]
  have called : step freed (.call task) = some (freed.moved task .waiting) := by
    simp [step,freed,Shared.moved]
  have acquired : step (freed.moved task .waiting) (.acquire task) = some next := by
    simp [step,freed,next,Shared.moved]
  refine ⟨next,?_,?_⟩
  · exact run_cons.mpr ⟨_,cancelled,run_cons.mpr ⟨_,called,run_cons.mpr ⟨_,acquired,rfl⟩⟩⟩
  · simp only [next,List.length_append,List.length_singleton]
    omega

/-- A run without a cancellation of running work and without a failing COMMIT leaves the connection one
work function at a time; and after any run such a cancellation can be followed by two. -/
theorem one_at_a_time (actions : List Action) (state : Shared)
    (taken : run step Shared.start actions = some state) :
    (Along step Orderly Shared.start actions → OneAtATime state) ∧
    (∀ task job, state.stage task = .awaiting job → job ∈ state.running →
      ∃ next, run step state [.cancel task,.call task,.acquire task] = some next ∧
      ¬ OneAtATime next) := by
  refine ⟨fun along => ?_,fun task job awaits running => ?_⟩
  · exact (along_invariant step_serial start_serial along taken).oneAtATime
  · obtain ⟨next,overlaps,two⟩ := abandoned_overlaps state task job awaits running
    exact ⟨next,overlaps,fun one => absurd one.1 (by omega)⟩

/-- A waiting task is cancelled while another's work runs, and the other only once its work is done. -/
def orderlyTurns : List Action :=
  [.call 0,.call 1,.acquire 0,.begin 0,.cancel 1,.finish 0,.cancel 0,.call 1,.acquire 1]

theorem one_at_a_time_turns : ∃ state, run step Shared.start orderlyTurns = some state ∧
    OneAtATime state := by
  have orderly : Along step Orderly Shared.start orderlyTurns := by
    simp [orderlyTurns,Along,Orderly,step,Shared.start,Shared.moved]
  exact ⟨_,rfl,(one_at_a_time orderlyTurns _ rfl).1 orderly⟩

/-- A task is cancelled inside its transaction and another begins its own. -/
theorem cancelled_work_overlaps :
    ¬ ∀ actions state, run step Shared.start actions = some state → OneAtATime state := by
  intro serial
  have both := serial [.call 0,.acquire 0,.begin 0,.call 1,.cancel 0,.acquire 1] _ rfl
  exact absurd both.1 (by decide)

end QuilrMcp.Router.StoreLock
