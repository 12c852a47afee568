import QuilrMcp.Library.Sqlite
import QuilrMcp.Library.Trace
import Mathlib.Tactic.Common

/-! The router's connection and its `transaction`. What the connection holds is a parameter, the work
may do anything with it, and every statement may fail. -/
namespace QuilrMcp.Router.Store
open Library.Sqlite Library.Trace

inductive Failure (ε : Type)
  | operationalError
  | raised (error : ε)

structure Endings where
  begin : Ending := .done
  commit : Ending := .done
  rollback : Ending := .done

section Transaction
variable {ρ ε α : Type}

/-- COMMIT stands behind the guarded block. -/
def transaction (endings : Endings) (work : Connection ρ → Except ε α × Connection ρ)
    (connection : Connection ρ) :
    Except (Failure ε) α × Connection ρ :=
  match connection.beginImmediate .operationalError endings.begin with
  | (.error failure,connection) => (.error failure,connection)
  | (.ok _,connection) =>
    match work connection with
    | (.error error,connection) =>
      match connection.rollback .operationalError endings.rollback with
      | (.error failure,connection) => (.error failure,connection)
      | (.ok _,connection) => (.error (.raised error),connection)
    | (.ok result,connection) =>
      match connection.commit .operationalError endings.commit with
      | (.error failure,connection) => (.error failure,connection)
      | (.ok _,connection) => (.ok result,connection)

/-- One use of the connection. -/
structure Use (ρ ε α : Type) where
  endings : Endings
  work : Connection ρ → Except ε α × Connection ρ

def Use.run (connection : Connection ρ) (use : Use ρ ε α) : Connection ρ × Except (Failure ε) α :=
  ((transaction use.endings use.work connection).2,(transaction use.endings use.work connection).1)

/-- A use leaves its transaction open: it begins one, and the COMMIT behind its work, or the ROLLBACK, fails
without ending it. -/
def Wedges (connection : Connection ρ) (use : Use ρ ε α) : Prop :=
  use.endings.begin = .done ∧
    (use.work {connection with pending := some connection.committed}).2.pending ≠ none ∧
    match (use.work {connection with pending := some connection.committed}).1 with
    | .ok _ => use.endings.commit = .raised
    | .error _ => use.endings.rollback = .raised

theorem transaction_outside_iff (connection : Connection ρ) (use : Use ρ ε α)
    (outside : connection.pending = none) :
    (use.run connection).1.pending = none ↔ ¬ Wedges connection use := by
  obtain ⟨committed,pending⟩ := connection
  obtain rfl : pending = none := outside
  unfold Use.run transaction Wedges
  cases begun : use.endings.begin with
  | raised => simp [Connection.beginImmediate]
  | aborted => simp [Connection.beginImmediate]
  | done =>
    simp only [Connection.beginImmediate,true_and]
    generalize use.work ⟨committed,some committed⟩ = worked
    obtain ⟨result,connection⟩ := worked
    cases result with
    | error error =>
      rw [← Connection.rollback_outside (.operationalError : Failure ε) connection
        use.endings.rollback]
      simp only
      split <;> rename_i rolled <;> rw [rolled]
    | ok value =>
      rw [← Connection.commit_outside (.operationalError : Failure ε) connection use.endings.commit]
      simp only
      split <;> rename_i ended <;> rw [ended]

/-- Whatever its uses do and wherever they fail, the connection is outside any transaction after each of
them exactly when none of them leaves its own open. -/
theorem uses_outside_iff (connection : Connection ρ) (uses : List (Use ρ ε α))
    (outside : connection.pending = none) :
    (∀ count, (after Use.run connection (uses.take count)).pending = none) ↔
    Never Use.run Wedges connection uses :=
  along_iff_never transaction_outside_iff outside

end Transaction

end QuilrMcp.Router.Store
