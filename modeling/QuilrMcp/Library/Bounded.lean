import Mathlib.Tactic.Common

/-! Reading what comes in chunks, up to a limit. A length that is declared ahead is checked first. -/
namespace QuilrMcp.Library.Bounded

section Reading
variable {α : Type} {declared : Option Nat} {limit : Nat}

/-- The chunks so far and to come, refused as soon as they are more than the limit. -/
def readChunks (limit : Nat) (body : List α) : List (List α) → Option (List α)
  | [] => some body
  | chunk::chunks => if (body ++ chunk).length > limit then none
      else readChunks limit (body ++ chunk) chunks

def readBounded (declared : Option Nat) (limit : Nat) (chunks : List (List α)) : Option (List α) :=
  if declared.any (· > limit) then none else readChunks limit [] chunks

theorem readChunks_flatten {chunks : List (List α)} {before body : List α}
    (read : readChunks limit before chunks = some body) : body = before ++ chunks.flatten := by
  induction chunks generalizing before with
  | nil =>
    cases read
    rw [List.flatten_nil,List.append_nil]
  | cons chunk chunks ih =>
    rw [readChunks] at read
    split_ifs at read
    rw [ih read,List.flatten_cons,List.append_assoc]

/-- How it is cut into chunks makes no difference to what is read. -/
theorem readBounded_flatten {chunks : List (List α)} {body : List α}
    (read : readBounded declared limit chunks = some body) : body = chunks.flatten := by
  unfold readBounded at read
  split_ifs at read
  exact readChunks_flatten read

end Reading

end QuilrMcp.Library.Bounded
