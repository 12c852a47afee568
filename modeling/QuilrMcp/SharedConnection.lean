import QuilrMcp.CustomerMcp.Ledger
import QuilrMcp.Router.Store

/-! The two services that share one connection: the router through `transaction`, the refund ledger
through `_immediate`. -/
namespace QuilrMcp.SharedConnection
open Library.Sqlite Library.Trace CustomerMcp

section Ledger
variable {σ α : Type}

/-- One use of the ledger's connection. -/
structure LedgerUse (σ α : Type) where
  endings : Endings
  body : Connection → σ → Except Failure α × Connection × σ

def LedgerUse.run (state : Connection × σ) (use : LedgerUse σ α) :
    (Connection × σ) × Except Failure α :=
  ((immediate use.endings use.body state.1 state.2).2,
    (immediate use.endings use.body state.1 state.2).1)

/-- As `Store.Wedges`, of the ledger. -/
def LedgerWedges (state : Connection × σ) (use : LedgerUse σ α) : Prop :=
  use.endings.begin = .done ∧
    (use.body ⟨state.1.committed,some state.1.committed⟩ state.2).2.1.pending ≠ none ∧
    match (use.body ⟨state.1.committed,some state.1.committed⟩ state.2).1 with
    | .ok _ => use.endings.commit = .raised
    | .error _ => use.endings.rollback = .raised

theorem immediate_outside_iff (state : Connection × σ) (use : LedgerUse σ α)
    (outside : state.1.pending = none) :
    (use.run state).1.1.pending = none ↔ ¬ LedgerWedges state use := by
  obtain ⟨⟨committed,pending⟩,memory⟩ := state
  obtain rfl : pending = none := outside
  unfold LedgerUse.run immediate LedgerWedges
  cases begun : use.endings.begin with
  | raised => simp [Connection.beginImmediate]
  | aborted => simp [Connection.beginImmediate]
  | done =>
    simp only [Connection.beginImmediate,true_and]
    generalize use.body ⟨committed,some committed⟩ memory = worked
    obtain ⟨result,connection,memory⟩ := worked
    cases result with
    | error error =>
      rw [← Connection.rollback_outside Failure.databaseError connection use.endings.rollback]
      simp only
      split <;> rename_i rolled <;> rw [rolled]
    | ok value =>
      rw [← Connection.commit_outside Failure.databaseError connection use.endings.commit]
      simp only
      split <;> rename_i ended <;> rw [ended]

end Ledger

/-- Over every sequence of uses of a new connection, the work and the endings of the statements arbitrary: after
each of them the connection is outside any transaction exactly when no use gets to a COMMIT, or to a
ROLLBACK, that fails and leaves the transaction open. -/
theorem outside_iff {ρ ε α σ β : Type} : (∀ (rows : ρ) (uses : List (Router.Store.Use ρ ε α)),
      (∀ count, (after Router.Store.Use.run ⟨rows,none⟩ (uses.take count)).pending = none) ↔
        Never Router.Store.Use.run Router.Store.Wedges ⟨rows,none⟩ uses) ∧
    (∀ (records : List Record) (memory : σ) (uses : List (LedgerUse σ β)),
      (∀ count, (after LedgerUse.run (⟨records,none⟩,memory) (uses.take count)).1.pending = none) ↔
        Never LedgerUse.run LedgerWedges (⟨records,none⟩,memory) uses) := by
  constructor
  · intro rows uses
    exact Router.Store.uses_outside_iff ⟨rows,none⟩ uses rfl
  · intro records memory uses
    exact @along_iff_never _ _ _ LedgerUse.run (fun state => state.1.pending = none) LedgerWedges
      immediate_outside_iff uses (⟨records,none⟩,memory) rfl

/-- One COMMIT that fails with the transaction open, in each of the services; every ROLLBACK succeeds. -/
theorem failed_commit_wedges : (¬ ∀ (rows : Nat) (uses : List (Router.Store.Use Nat Unit Unit)),
      (∀ use ∈ uses, use.endings.rollback = .done) →
      ∀ count, (after Router.Store.Use.run ⟨rows,none⟩ (uses.take count)).pending = none) ∧
    ¬ ∀ (records : List Record) (uses : List (LedgerUse Unit Unit)),
      (∀ use ∈ uses, use.endings.rollback = .done) →
      ∀ count, (after LedgerUse.run (⟨records,none⟩,()) (uses.take count)).1.pending = none := by
  constructor
  · intro outside
    have left :=
      outside 0 [⟨⟨.done,.raised,.done⟩,fun connection => (.ok (),connection)⟩] (by simp) 1
    contradiction
  · intro outside
    have left :=
      outside [] [⟨⟨.done,.done,.done,.done,.raised,.done⟩,fun connection memory =>
        (.ok (),connection,memory)⟩]
      (by simp) 1
    contradiction

end QuilrMcp.SharedConnection
