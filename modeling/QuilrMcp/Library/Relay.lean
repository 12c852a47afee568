import QuilrMcp.Library.Trace
import Mathlib.Tactic.SplitIfs
import Mathlib.Tactic.ByContra

/-! A reader and a pump. The reader takes the items of an input one by one: it passes an item on,
drops it, answers it, or fails on it. Answers wait in a queue of bounded length, and a reader that
finds it full waits with its answer in hand. The pump takes the answers off the queue and hands them
to an output that others write to as well. -/
namespace QuilrMcp.Library.Relay
open Trace (run run_cons run_invariant)

variable {α β γ : Type}

inductive Verdict (β : Type)
  | pass
  | drop
  | answer (message : β)
  | failure

structure State (α β γ : Type) where
  incoming : List α
  passed : List α
  waiting : Option β
  queue : List β
  held : Option β
  output : List (β ⊕ γ)
  stopped : Bool

def State.start (items : List α) : State α β γ := ⟨items,[],none,[],none,[],false⟩

/-- What the pump has handed over. -/
def State.handed (state : State α β γ) : List β := state.output.filterMap Sum.getLeft?

/-- What the others have written. -/
def State.others (state : State α β γ) : List γ := state.output.filterMap Sum.getRight?

/-- The answers on their way, the next to arrive first. -/
def State.pending (state : State α β γ) : List β :=
  state.held.toList ++ state.queue ++ state.waiting.toList

inductive Action (γ : Type)
  | read
  | take
  | hand
  | other (message : γ)
  | stop

/-- A step of the reader or the pump. -/
def Action.works : Action γ → Bool
  | .read => true
  | .take => true
  | .hand => true
  | .other _ => false
  | .stop => false

def Action.written : Action γ → Option γ
  | .other message => some message
  | _ => none

section Steps
variable (sort : α → Verdict β) (capacity : Nat)

def passes (item : α) : Bool :=
  match sort item with
  | .pass => true
  | _ => false

def answer (item : α) : Option β :=
  match sort item with
  | .answer message => some message
  | _ => none

/-- The next item, with `rest` behind it. -/
def receive (state : State α β γ) (item : α) (rest : List α) : State α β γ :=
  match sort item with
  | .pass => { state with incoming := rest, passed := state.passed ++ [item] }
  | .drop => { state with incoming := rest }
  | .answer message =>
    if state.queue.length < capacity then
      { state with incoming := rest, queue := state.queue ++ [message] }
    else { state with incoming := rest, waiting := some message }
  | .failure => { state with incoming := rest, stopped := true }

/-- The pump takes the first answer; the place it leaves is filled by the one the reader waits with. -/
def takeFirst (state : State α β γ) (first : β) (rest : List β) : State α β γ :=
  { state with held := some first, queue := rest ++ state.waiting.toList, waiting := none }

def handOver (state : State α β γ) (message : β) : State α β γ :=
  { state with held := none, output := state.output ++ [.inl message] }

/-- Nothing moves once the relay has stopped. -/
def step (state : State α β γ) (action : Action γ) : Option (State α β γ) :=
  if state.stopped then none
  else match action with
    | .read =>
      match state.waiting, state.incoming with
      | none, item::rest => some (receive sort capacity state item rest)
      | _, _ => none
    | .take =>
      match state.held, state.queue with
      | none, first::rest => some (takeFirst state first rest)
      | _, _ => none
    | .hand => state.held.map (handOver state)
    | .other message => some { state with output := state.output ++ [.inr message] }
    | .stop => some { state with stopped := true }

variable {sort capacity}

/-- Everything a step can do. -/
theorem step_cases {state next : State α β γ} {action : Action γ}
    (taken : step sort capacity state action = some next) :
    state.stopped = false ∧
    ((∃ item rest, action = .read ∧ state.waiting = none ∧ state.incoming = item::rest ∧
        next = receive sort capacity state item rest) ∨
      (∃ first rest, action = .take ∧ state.held = none ∧ state.queue = first::rest ∧
        next = takeFirst state first rest) ∨
      (∃ message, action = .hand ∧ state.held = some message ∧ next = handOver state message) ∨
      (∃ message, action = .other message ∧ next = { state with output := state.output ++
        [.inr message] }) ∨
      (action = .stop ∧ next = { state with stopped := true })) := by
  cases running : state.stopped with
  | true => simp [step,running] at taken
  | false =>
    refine ⟨rfl,?_⟩
    simp only [step,running,Bool.false_eq_true,if_false] at taken
    cases action with
    | read =>
      cases free : state.waiting with
      | some message => simp [free] at taken
      | none =>
        cases items : state.incoming with
        | nil => simp [free,items] at taken
        | cons item rest =>
          simp only [free,items,Option.some.injEq] at taken
          exact .inl ⟨item,rest,rfl,rfl,rfl,taken.symm⟩
    | take =>
      cases free : state.held with
      | some message => simp [free] at taken
      | none =>
        cases waiting : state.queue with
        | nil => simp [free,waiting] at taken
        | cons first rest =>
          simp only [free,waiting,Option.some.injEq] at taken
          exact .inr (.inl ⟨first,rest,rfl,rfl,rfl,taken.symm⟩)
    | hand =>
      obtain ⟨message,holds,same⟩ := Option.map_eq_some_iff.mp taken
      exact .inr (.inr (.inl ⟨message,rfl,holds,same.symm⟩))
    | other message =>
      cases taken
      exact .inr (.inr (.inr (.inl ⟨message,rfl,rfl⟩)))
    | stop =>
      cases taken
      exact .inr (.inr (.inr (.inr ⟨rfl,rfl⟩)))

/-- The relay has read `seen`: what it passed on and what it answered is what the reader found there,
in that order, each answer handed over or on its way. -/
structure Kept (sort : α → Verdict β) (capacity : Nat) (items seen : List α) (state : State α β γ) :
    Prop where
  read : items = seen ++ state.incoming
  passed : state.passed = seen.filter (passes sort)
  answered : state.handed ++ state.pending = seen.filterMap (answer sort)
  bounded : state.queue.length ≤ capacity
  full : state.waiting ≠ none → state.queue.length = capacity
  sound : state.stopped = false → ∀ item ∈ seen, sort item ≠ .failure

theorem Kept.start (sort : α → Verdict β) (capacity : Nat) (items : List α) :
    Kept (γ := γ) sort capacity items [] (.start items) where
  read := rfl
  passed := rfl
  answered := rfl
  bounded := Nat.zero_le _
  full := fun waits => absurd rfl waits
  sound := fun _ => List.forall_mem_nil _

private theorem Kept.receive {items seen rest : List α} {state : State α β γ} {item : α}
    (kept : Kept sort capacity items seen state) (free : state.waiting = none)
    (next : state.incoming = item::rest) :
    Kept sort capacity items (seen ++ [item]) (receive sort capacity state item rest) := by
  have read : items = (seen ++ [item]) ++ rest := by
    rw [kept.read,next,List.append_assoc,List.singleton_append]
  have answered := kept.answered
  simp only [State.pending,free,Option.toList_none,List.append_nil] at answered
  have sound (succeeds : sort item ≠ .failure) (running : state.stopped = false) :
      ∀ other ∈ seen ++ [item], sort other ≠ .failure :=
    List.forall_mem_append.mpr ⟨kept.sound running,List.forall_mem_singleton.mpr succeeds⟩
  cases verdict : sort item with
  | pass =>
    simp only [Relay.receive,verdict]
    refine ⟨read,?_,?_,kept.bounded,kept.full,sound (by simp [verdict])⟩
    · simp [kept.passed,passes,verdict]
    · simpa [State.pending,free,State.handed,answer,verdict] using answered
  | drop =>
    simp only [Relay.receive,verdict]
    refine ⟨read,?_,?_,kept.bounded,kept.full,sound (by simp [verdict])⟩
    · simp [kept.passed,passes,verdict]
    · simpa [State.pending,free,State.handed,answer,verdict] using answered
  | answer message =>
    simp only [Relay.receive,verdict]
    by_cases room : state.queue.length < capacity
    · rw [if_pos room]
      refine ⟨read,?_,?_,?_,?_,sound (by simp [verdict])⟩
      · simp [kept.passed,passes,verdict]
      · simp [State.pending,free,State.handed,answer,verdict,← answered]
      · simpa [Nat.succ_le_iff] using room
      · intro waits; exact absurd free waits
    · rw [if_neg room]
      have bounded := kept.bounded
      refine ⟨read,?_,?_,bounded,fun _ => by simp only; omega,sound (by simp [verdict])⟩
      · simp [kept.passed,passes,verdict]
      · simp [State.pending,State.handed,answer,verdict,← answered]
  | failure =>
    simp only [Relay.receive,verdict]
    refine ⟨read,?_,?_,kept.bounded,kept.full,fun running => Bool.noConfusion running⟩
    · simp [kept.passed,passes,verdict]
    · simpa [State.pending,free,State.handed,answer,verdict] using answered

private theorem Kept.takeFirst {items seen : List α} {state : State α β γ} {first : β}
    {rest : List β} (kept : Kept sort capacity items seen state) (free : state.held = none)
    (queue : state.queue = first::rest) :
    Kept sort capacity items seen (takeFirst state first rest) := by
  have bounded := kept.bounded
  rw [queue,List.length_cons] at bounded
  refine ⟨kept.read,kept.passed,?_,?_,fun waits => absurd rfl waits,kept.sound⟩
  · simpa [State.pending,State.handed,Relay.takeFirst,free,queue] using kept.answered
  · simp only [Relay.takeFirst,List.length_append]
    cases waits : state.waiting with
    | none => simp only [Option.toList_none,List.length_nil]; omega
    | some message => simp only [Option.toList_some,List.length_singleton]; omega

/-- Whatever the step, the relay keeps its account of what it has read. -/
theorem Kept.step {items seen : List α} {state next : State α β γ} {action : Action γ}
    (kept : Kept sort capacity items seen state)
    (taken : step sort capacity state action = some next) :
    ∃ more, Kept sort capacity items (seen ++ more) next := by
  obtain ⟨-,⟨item,rest,-,free,items,rfl⟩ | ⟨first,rest,-,free,queue,rfl⟩ | ⟨message,-,holds,
    rfl⟩ | ⟨message,-,rfl⟩ | ⟨-,rfl⟩⟩ :=
    step_cases taken
  · exact ⟨[item],kept.receive free items⟩
  · refine ⟨[],?_⟩
    rw [List.append_nil]
    exact kept.takeFirst free queue
  · refine ⟨[],?_⟩
    rw [List.append_nil]
    refine ⟨kept.read,kept.passed,?_,kept.bounded,kept.full,kept.sound⟩
    simpa [State.pending,State.handed,handOver,holds] using kept.answered
  · refine ⟨[],?_⟩
    rw [List.append_nil]
    refine ⟨kept.read,kept.passed,?_,kept.bounded,kept.full,kept.sound⟩
    simpa [State.pending,State.handed,List.filterMap_cons] using kept.answered
  · refine ⟨[],?_⟩
    rw [List.append_nil]
    exact ⟨kept.read,kept.passed,kept.answered,kept.bounded,kept.full,fun running =>
      Bool.noConfusion running⟩

/-- Whatever the order of the steps, the relay has kept its account. -/
theorem run_kept {items : List α} {final : State α β γ} {actions : List (Action γ)}
    (taken : run (step sort capacity) (.start items) actions = some final) :
    ∃ seen, Kept sort capacity items seen final := by
  have kept : ∀ (state : State α β γ) action next, (∃ seen, Kept sort capacity items seen state) →
      step sort capacity state action = some next → ∃ seen, Kept sort capacity items seen next := by
    rintro state action next ⟨seen,kept⟩ taken
    obtain ⟨more,kept⟩ := kept.step taken
    exact ⟨seen ++ more,kept⟩
  exact run_invariant kept ⟨[],Kept.start sort capacity items⟩ taken

/-- The others' messages are written in the order they were given in, none of them lost. -/
theorem run_others {state final : State α β γ} {actions : List (Action γ)}
    (taken : run (step sort capacity) state actions = some final) :
    final.others = state.others ++ actions.filterMap Action.written := by
  induction actions generalizing state with
  | nil => cases taken; exact (List.append_nil _).symm
  | cons action rest ih =>
    obtain ⟨next,first,later⟩ := run_cons.mp taken
    rw [ih later]
    obtain ⟨-,⟨item,left,rfl,-,-,rfl⟩ | ⟨message,left,rfl,-,-,rfl⟩ | ⟨message,rfl,-,rfl⟩ | ⟨message,
      rfl,rfl⟩ | ⟨rfl,rfl⟩⟩ :=
      step_cases first
    · have same : (receive sort capacity state item left).output = state.output := by
        cases verdict : sort item with
        | pass => simp only [receive,verdict]
        | drop => simp only [receive,verdict]
        | answer message => simp only [receive,verdict]; split_ifs <;> rfl
        | failure => simp only [receive,verdict]
      simp [State.others,same,Action.written,List.filterMap_cons]
    · simp [State.others,takeFirst,Action.written,List.filterMap_cons]
    · simp [State.others,handOver,Action.written,List.filterMap_cons]
    · simp [State.others,Action.written]
    · simp [State.others,Action.written,List.filterMap_cons]

/-- What a stop can lose: no more than the queue holds, one answer in the pump's hand and one in the reader's. -/
theorem Kept.pending_length {items seen : List α} {state : State α β γ}
    (kept : Kept sort capacity items seen state) :
    state.pending.length ≤ capacity + 2 := by
  have bounded := kept.bounded
  have held : state.held.toList.length ≤ 1 := by cases state.held <;> simp
  have waiting : state.waiting.toList.length ≤ 1 := by cases state.waiting <;> simp
  rw [State.pending,List.length_append,List.length_append]
  omega

/-- Three steps for every item still to be read, two for every answer not yet taken, one for the one in hand. -/
def State.work (state : State α β γ) : Nat :=
  3 * state.incoming.length + 2 * (state.queue.length + state.waiting.toList.length) +
    state.held.toList.length

private theorem work_receive {state : State α β γ} {item : α} {rest : List α}
    (free : state.waiting = none) (items : state.incoming = item::rest) :
    (receive sort capacity state item rest).work + 1 ≤ state.work := by
  simp only [State.work,items,free,List.length_cons,Option.toList_none,List.length_nil]
  cases verdict : sort item with
  | pass => simp only [receive,verdict,free,Option.toList_none,List.length_nil]; omega
  | drop => simp only [receive,verdict,free,Option.toList_none,List.length_nil]; omega
  | failure => simp only [receive,verdict,free,Option.toList_none,List.length_nil]; omega
  | answer message =>
    simp only [receive,verdict]
    split_ifs
    · simp only [List.length_append,List.length_singleton,free,Option.toList_none,
        List.length_nil]; omega
    · simp only [Option.toList_some,List.length_singleton]; omega

/-- Every step of the reader or the pump uses up some of the work, and no other step adds to it. -/
theorem work_step {state next : State α β γ} {action : Action γ}
    (taken : step sort capacity state action = some next) :
    next.work + (if action.works then 1 else 0) ≤ state.work := by
  obtain ⟨-,⟨item,rest,rfl,free,items,rfl⟩ | ⟨first,rest,rfl,free,queue,rfl⟩ | ⟨message,rfl,holds,
    rfl⟩ | ⟨message,rfl,rfl⟩ | ⟨rfl,rfl⟩⟩ :=
    step_cases taken
  · exact work_receive free items
  · simp only [State.work,takeFirst,free,queue,Action.works,List.length_cons,List.length_append,
      Option.toList_none,Option.toList_some,List.length_nil,if_true]
    omega
  · simp [State.work,handOver,holds,Action.works]
  · simp [State.work,Action.works]
  · simp [State.work,Action.works]

theorem run_work {state final : State α β γ} {actions : List (Action γ)}
    (taken : run (step sort capacity) state actions = some final) :
    final.work + actions.countP Action.works ≤ state.work := by
  induction actions generalizing state with
  | nil => cases taken; simp
  | cons action rest ih =>
    obtain ⟨next,first,later⟩ := run_cons.mp taken
    have here := work_step first
    have onward := ih later
    rw [List.countP_cons]
    omega

/-- Neither the reader nor the pump can go on. -/
def Idle (sort : α → Verdict β) (capacity : Nat) (state : State α β γ) : Prop :=
  ∀ action : Action γ, action.works = true → step sort capacity state action = none

/-- A relay that was not stopped and can do no more has read everything, and nothing is on its way:
no reader is left waiting and no answer is left in the queue. -/
theorem Kept.idle {items seen : List α} {state : State α β γ}
    (kept : Kept sort capacity items seen state) (room : 0 < capacity)
    (running : state.stopped = false) (idle : Idle sort capacity state) :
    seen = items ∧ state.incoming = [] ∧ state.pending = [] := by
  have empty : state.held = none := by
    have stuck := idle .hand rfl
    simpa [Relay.step,running] using stuck
  have drained : state.queue = [] := by
    have stuck := idle .take rfl
    cases queue : state.queue with
    | nil => rfl
    | cons first rest => simp [Relay.step,running,empty,queue] at stuck
  have free : state.waiting = none := by
    by_contra waits
    have full := kept.full waits
    rw [drained,List.length_nil] at full
    omega
  have finished : state.incoming = [] := by
    have stuck := idle .read rfl
    cases incoming : state.incoming with
    | nil => rfl
    | cons item rest => simp [Relay.step,running,free,incoming] at stuck
  refine ⟨?_,finished,?_⟩
  · rw [kept.read,finished,List.append_nil]
  · rw [State.pending,empty,drained,free]
    rfl

private theorem step_running {state next : State α β γ} {action : Action γ}
    (works : action.works = true) (sound : ∀ item ∈ state.incoming, sort item ≠ .failure)
    (taken : step sort capacity state action = some next) :
    next.stopped = false ∧ ∀ item ∈ next.incoming, sort item ≠ .failure := by
  obtain ⟨running,⟨item,rest,-,-,items,rfl⟩ | ⟨first,rest,-,-,-,rfl⟩ | ⟨message,-,-,rfl⟩ | ⟨message,
    rfl,-⟩ | ⟨rfl,-⟩⟩ :=
    step_cases taken
  · rw [items] at sound
    have later : ∀ item ∈ rest, sort item ≠ .failure :=
      fun other member => sound other (List.mem_cons_of_mem _ member)
    cases verdict : sort item with
    | pass => simp only [receive,verdict]; exact ⟨running,later⟩
    | drop => simp only [receive,verdict]; exact ⟨running,later⟩
    | answer message => simp only [receive,verdict]; split_ifs <;> exact ⟨running,later⟩
    | failure => exact absurd verdict (sound item List.mem_cons_self)
  · exact ⟨running,sound⟩
  · exact ⟨running,sound⟩
  · cases works
  · cases works

/-- From wherever a running relay has come to, the reader and the pump can go on to the end. -/
theorem exists_idle (state : State α β γ) (running : state.stopped = false)
    (sound : ∀ item ∈ state.incoming, sort item ≠ .failure) :
    ∃ actions final, run (step sort capacity) state actions = some final ∧ final.stopped = false ∧
      Idle sort capacity final := by
  induction left : state.work using Nat.strongRecOn generalizing state with
  | ind left ih =>
    by_cases idle : Idle sort capacity state
    · exact ⟨[],state,rfl,running,idle⟩
    · obtain ⟨action,works,moves⟩ : ∃ action : Action γ, action.works = true ∧
        step sort capacity state action ≠ none := by
        simpa [Idle] using idle
      obtain ⟨next,taken⟩ := Option.ne_none_iff_exists'.mp moves
      obtain ⟨running,sound⟩ := step_running works sound taken
      have used := work_step taken
      rw [works,if_pos rfl] at used
      obtain ⟨actions,final,ran,rest⟩ := ih next.work (by omega) next running sound rfl
      exact ⟨action::actions,final,run_cons.mpr ⟨next,taken,ran⟩,rest⟩

end Steps

end QuilrMcp.Library.Relay
