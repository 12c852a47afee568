import Mathlib.Data.List.Forall2

/-! Finite runs. A step function may refuse an action, and a run is then defined only
when each of its steps is; or it may answer every action, and two machines are compared
by the answers they give. -/
namespace QuilrMcp.Library.Trace

variable {σ τ α β : Type}

def run (step : σ → α → Option σ) : σ → List α → Option σ
  | state, [] => some state
  | state, action::rest => (step state action).bind (fun next => run step next rest)

@[simp] theorem run_nil (step : σ → α → Option σ) (state : σ) : run step state [] = some state :=
  rfl

theorem run_cons {step : σ → α → Option σ} {state final : σ} {action : α} {rest : List α} :
    run step state (action::rest) = some final ↔
      ∃ next, step state action = some next ∧ run step next rest = some final := by
  simp [run,Option.bind_eq_some_iff]

/-- An invariant that every step keeps holds at the end of every run. -/
theorem run_invariant {step : σ → α → Option σ} {Inv : σ → Prop}
    (kept : ∀ state action next, Inv state → step state action = some next → Inv next)
    {state final : σ} {actions : List α} (initial : Inv state)
    (taken : run step state actions = some final) : Inv final := by
  induction actions generalizing state with
  | nil => cases taken; exact initial
  | cons action rest ih =>
    obtain ⟨next,first,later⟩ := run_cons.mp taken
    exact ih (kept state action next initial first) later

/-- Every step that the run takes meets the condition. -/
def Along (step : σ → α → Option σ) (Condition : σ → α → Prop) : σ → List α → Prop
  | _, [] => True
  | state, action::rest =>
    Condition state action ∧ ∀ next, step state action = some next → Along step Condition next rest

/-- An invariant that every step that meets the condition keeps. -/
theorem along_invariant {step : σ → α → Option σ} {Condition : σ → α → Prop} {Inv : σ → Prop}
    (kept : ∀ state action next, Inv state → Condition state action →
      step state action = some next → Inv next)
    {state final : σ} {actions : List α} (initial : Inv state)
    (along : Along step Condition state actions) (taken : run step state actions = some final) :
    Inv final := by
  induction actions generalizing state with
  | nil => cases taken; exact initial
  | cons action rest ih =>
    obtain ⟨next,first,later⟩ := run_cons.mp taken
    exact ih (kept state action next initial along.1 first) (along.2 next first) later

/-- The answers of a machine that answers every action. -/
def answers (execute : σ → α → σ × β) : σ → List α → List β
  | _, [] => []
  | state, action::rest => (execute state action).2::answers execute (execute state action).1 rest

/-- The state that a machine that answers every action is left in. -/
def after (execute : σ → α → σ × β) (state : σ) (actions : List α) : σ :=
  actions.foldl (fun state action => (execute state action).1) state

/-- An invariant that every answered action of the list keeps. -/
theorem after_invariant {execute : σ → α → σ × β} {Inv : σ → Prop} {actions : List α} {state : σ}
    (kept : ∀ state, ∀ action ∈ actions, Inv state → Inv (execute state action).1)
    (initial : Inv state) :
    Inv (after execute state actions) := by
  induction actions generalizing state with
  | nil => exact initial
  | cons action rest ih =>
    apply ih
    · intro next other member
      exact kept next other (List.mem_cons_of_mem _ member)
    · exact kept state action List.mem_cons_self initial

/-- Machines that are kept in step are in step after any part of the actions. -/
theorem after_related {execute : σ → α → σ × β} {execute' : τ → α → τ × β}
    (Related : List α → σ → τ → Prop)
    (kept : ∀ action rest state state', Related (action::rest) state state' →
      Related rest (execute state action).1 (execute' state' action).1)
    {actions rest : List α} {state : σ} {state' : τ}
    (initial : Related (actions ++ rest) state state') :
    Related rest (after execute state actions) (after execute' state' actions) := by
  induction actions generalizing state state' with
  | nil => exact initial
  | cons action actions ih => exact ih (kept action (actions ++ rest) state state' initial)

/-- No action of the run breaks a condition. -/
def Never (execute : σ → α → σ × β) (Breaks : σ → α → Prop) : σ → List α → Prop
  | _, [] => True
  | state, action::rest => ¬ Breaks state action ∧
      Never execute Breaks (execute state action).1 rest

/-- A condition that only breaking actions end holds all along a run exactly when none of its actions
breaks it. -/
theorem along_iff_never {execute : σ → α → σ × β} {Inv : σ → Prop} {Breaks : σ → α → Prop}
    (kept : ∀ state action, Inv state → (Inv (execute state action).1 ↔ ¬ Breaks state action))
    {actions : List α} {state : σ} (initial : Inv state) :
    (∀ count, Inv (after execute state (actions.take count))) ↔
    Never execute Breaks state actions := by
  induction actions generalizing state with
  | nil => exact iff_of_true (fun count => by rw [List.take_nil]; exact initial) trivial
  | cons action rest ih =>
    constructor
    · intro along
      have next : Inv (execute state action).1 := along 1
      exact ⟨(kept state action initial).mp next,(ih next).mp (fun count => along (count + 1))⟩
    · rintro ⟨unbroken,never⟩ count
      have next : Inv (execute state action).1 := (kept state action initial).mpr unbroken
      cases count with
      | zero => exact initial
      | succ count => exact (ih next).mpr never count

/-- The actions of a run whose answers are not ignored, each with its answer. -/
def heeded (ignored : β → Bool) (execute : σ → α → σ × β) (state : σ) (actions : List α) :
    List (α × β) :=
  (actions.zip (answers execute state actions)).filter (fun exchange => !ignored exchange.2)

/-- Where ignored answers come from actions that change nothing, a run without these actions ends in the same
state and gives the other answers. -/
theorem after_heeded {ignored : β → Bool} {execute : σ → α → σ × β}
    (still : ∀ state action, ignored (execute state action).2 = true →
      (execute state action).1 = state)
    (state : σ) (actions : List α) :
    after execute state ((heeded ignored execute state actions).map Prod.fst) =
      after execute state actions ∧
    answers execute state ((heeded ignored execute state actions).map Prod.fst) =
      (heeded ignored execute state actions).map Prod.snd := by
  induction actions generalizing state with
  | nil => exact ⟨rfl,rfl⟩
  | cons action rest ih =>
    obtain ⟨same,given⟩ := ih (execute state action).1
    cases choice : ignored (execute state action).2 with
    | true =>
      have dropped : heeded ignored execute state (action::rest) =
        heeded ignored execute state rest := by
        simp only [heeded,answers,List.zip_cons_cons,List.filter_cons,choice,
          still state action choice,Bool.not_true,Bool.false_eq_true,if_false]
      rw [still state action choice] at same given
      rw [dropped]
      exact ⟨same.trans (congrArg (after execute · rest) (still state action choice).symm),given⟩
    | false =>
      have taken : heeded ignored execute state (action::rest) =
          (action,(execute state action).2)::heeded ignored execute
          (execute state action).1 rest := by
        simp only [heeded,answers,List.zip_cons_cons,List.filter_cons,choice,Bool.not_false,if_true]
      rw [taken]
      refine ⟨same,?_⟩
      rw [List.map_cons,List.map_cons,answers,given]

/-- What is seen of the steps of a run, up to the first that is refused. -/
def seen (step : σ → α → Option σ) (see : σ → α → β) : σ → List α → List β
  | _, [] => []
  | state, action::rest =>
    match step state action with
    | none => []
    | some next => see state action::seen step see next rest

/-- Runs of like actions from like states are refused alike and look alike. -/
theorem seen_alike {step : σ → α → Option σ} {see : σ → α → β} {Like : σ → σ → Prop}
    {Likewise : α → α → Prop} (kept : ∀ action action' state state', Likewise action action' →
      Like state state' →
      see state action = see state' action' ∧
      Option.Rel Like (step state action) (step state' action'))
    {actions actions' : List α} {state state' : σ}
    (likewise : List.Forall₂ Likewise actions actions') (initial : Like state state') :
    seen step see state actions = seen step see state' actions' := by
  induction likewise generalizing state state' with
  | nil => rfl
  | @cons action action' actions actions' first later ih =>
    obtain ⟨same,related⟩ := kept action action' state state' first initial
    rw [seen,seen]
    generalize step state action = next at related ⊢
    generalize step state' action' = next' at related ⊢
    cases related with
    | none => rfl
    | some like => exact congrArg₂ List.cons same (ih like)

theorem alike_at {Like : α → β → Prop} {items : List α} {others : List β}
    (alike : List.Forall₂ Like items others) (index : Nat) :
    Option.Rel Like items[index]? others[index]? := by
  induction alike generalizing index with
  | nil => exact .none
  | cons first later ih =>
    cases index with
    | zero => exact .some first
    | succ index => exact ih index

theorem alike_set {Like : α → β → Prop} {items : List α} {others : List β}
    (alike : List.Forall₂ Like items others) (index : Nat) {item : α} {other : β}
    (like : Like item other) :
    List.Forall₂ Like (items.set index item) (others.set index other) := by
  induction alike generalizing index with
  | nil => exact .nil
  | cons first later ih =>
    cases index with
    | zero => exact .cons like later
    | succ index => exact .cons first (ih index)

end QuilrMcp.Library.Trace
