import Mathlib.Tactic.Common

/-! One connection to SQLite in autocommit mode: what is committed, and inside a transaction what it has made of
that so far. What the connection holds and the error that a failed statement raises are parameters. -/
namespace QuilrMcp.Library.Sqlite

/-- How a statement ends. SQLite ends some failed transactions by itself. -/
inductive Ending
  | done
  | raised
  | aborted
  deriving DecidableEq

structure Connection (ρ : Type) where
  committed : ρ
  pending : Option ρ
  deriving DecidableEq

namespace Connection
variable {ρ φ : Type}

def abandoned (connection : Connection ρ) : Ending → Connection ρ
  | .aborted => {connection with pending := none}
  | _ => connection

/-- `BEGIN IMMEDIATE`, an error inside a transaction. -/
def beginImmediate (failure : φ) (connection : Connection ρ) (ending : Ending) :
    Except φ Unit × Connection ρ :=
  match connection.pending, ending with
  | none, .done => (.ok (),{connection with pending := some connection.committed})
  | _, _ => (.error failure,connection)

def commit (failure : φ) (connection : Connection ρ) (ending : Ending) :
    Except φ Unit × Connection ρ :=
  match connection.pending, ending with
  | some rows, .done => (.ok (),⟨rows,none⟩)
  | _, _ => (.error failure,connection.abandoned ending)

def rollback (failure : φ) (connection : Connection ρ) (ending : Ending) :
    Except φ Unit × Connection ρ :=
  match connection.pending, ending with
  | some _, .done => (.ok (),{connection with pending := none})
  | _, _ => (.error failure,connection.abandoned ending)

/-- What a statement sees. -/
def rows (connection : Connection ρ) : ρ := connection.pending.getD connection.committed

/-- Outside a transaction a statement commits by itself. -/
def write (connection : Connection ρ) (rows : ρ) : Connection ρ :=
  match connection.pending with
  | some _ => {connection with pending := some rows}
  | none => {connection with committed := rows}

theorem commit_outside (failure : φ) (connection : Connection ρ) (ending : Ending) :
    (connection.commit failure ending).2.pending = none ↔ ¬ (connection.pending ≠ none ∧
      ending = .raised) := by
  obtain ⟨committed,pending⟩ := connection
  cases pending <;> cases ending <;> simp [commit,abandoned]

theorem rollback_outside (failure : φ) (connection : Connection ρ) (ending : Ending) :
    (connection.rollback failure ending).2.pending = none ↔ ¬ (connection.pending ≠ none ∧
      ending = .raised) := by
  obtain ⟨committed,pending⟩ := connection
  cases pending <;> cases ending <;> simp [rollback,abandoned]

end Connection

end QuilrMcp.Library.Sqlite
