import Mathlib.Tactic.Common

/-! Backing off from a limit. A search that jumps from one fitting position to the next below it finds
what a search that tries every position finds. -/
namespace QuilrMcp.Library.BackOff

section Loop
variable (next : Nat → Option Nat) (accepts : Nat → Bool) (floor : Nat)

/-- The loop that asks for a position within the limit, stops where it is accepted and goes on below it
where it is not. It ends at the limit with the result. -/
inductive Backs : Nat → Option Nat → Prop
  | ended {limit : Nat} : limit < floor → Backs limit none
  | nothing {limit : Nat} : floor ≤ limit → next limit = none → Backs limit none
  | accepted {limit e : Nat} : floor ≤ limit → next limit = some e → accepts e = true →
      Backs limit (some e)
  | rejected {limit e : Nat} {result : Option Nat} : floor ≤ limit → next limit = some e →
      accepts e = false →
      Backs (e - 1) result → Backs limit result

/-- The positions from the limit down to the floor, one at a time. -/
def everyDown : Nat → Option Nat
  | 0 => if floor ≤ 0 && accepts 0 then some 0 else none
  | limit+1 =>
    if floor ≤ limit + 1 then if accepts (limit + 1) then some (limit + 1)
    else everyDown limit else none

end Loop

/-- The result is the last position from the floor to the limit of which something holds, if there is one. -/
def Last (p : Nat → Prop) (floor limit : Nat) : Option Nat → Prop
  | some e => floor ≤ e ∧ e ≤ limit ∧ p e ∧ ∀ other, floor ≤ other → other ≤ limit →
      p other → other ≤ e
  | none => ∀ other, floor ≤ other → other ≤ limit → ¬ p other

variable {p : Nat → Prop} {floor limit : Nat} {result result' : Option Nat}

theorem Last.unique (last : Last p floor limit result) (last' : Last p floor limit result') :
    result = result' := by
  cases result with
  | none =>
    cases result' with
    | none => rfl
    | some e =>
      obtain ⟨low,high,holds,-⟩ := last'
      exact absurd holds (last e low high)
  | some e =>
    obtain ⟨low,high,holds,above⟩ := last
    cases result' with
    | none => exact absurd holds (last' e low high)
    | some e' =>
      obtain ⟨low',high',holds',above'⟩ := last'
      have first := above e' low' high' holds'
      have second := above' e low high holds
      rw [Nat.le_antisymm second first]

/-- A limit of which it does not hold may be left out. -/
theorem Last.extend {top : Nat} (last : Last p floor limit result) (more : limit ≤ top)
    (fails : ∀ other, limit < other → other ≤ top → ¬ p other) : Last p floor top result := by
  have within {other : Nat} (high : other ≤ top) (holds : p other) : other ≤ limit := by
    by_contra beyond
    exact fails other (Nat.lt_of_not_le beyond) high holds
  cases result with
  | none => exact fun other low high holds => last other low (within high holds) holds
  | some e =>
    obtain ⟨low,high,holds,above⟩ := last
    exact ⟨low,Nat.le_trans high more,holds,fun other low' high' holds' =>
      above other low' (within high' holds') holds'⟩

theorem Last.below (low : limit < floor) : Last p floor limit none := by
  intro other above under
  omega

theorem everyDown_last (accepts : Nat → Bool) (floor limit : Nat) :
    Last (accepts · = true) floor limit (everyDown accepts floor limit) := by
  induction limit with
  | zero =>
    rw [everyDown]
    split_ifs with here
    · rw [Bool.and_eq_true,decide_eq_true_eq] at here
      exact ⟨here.1,Nat.le_refl 0,here.2,fun other _ high _ => high⟩
    · intro other low high holds
      obtain rfl := Nat.le_zero.mp high
      exact here (by simpa [low] using holds)
  | succ limit ih =>
    rw [everyDown]
    split_ifs with low holds
    · exact ⟨low,Nat.le_refl _,holds,fun other _ high _ => high⟩
    · apply ih.extend (Nat.le_succ limit)
      intro other above high
      obtain rfl : other = limit + 1 := by omega
      exact holds
    · exact Last.below (Nat.lt_of_not_le low)

section Jumping
variable {next : Nat → Option Nat} {accepts : Nat → Bool}

/-- Where each jump goes to the last fitting position within the limit, the loop ends with the last one
that fits and is accepted. -/
theorem Backs.last {fits : Nat → Prop} {top : Nat}
    (jumps : ∀ limit ≤ top, Last fits floor limit (next limit)) (within : limit ≤ top)
    (backs : Backs next accepts floor limit result) :
    Last (fun e => fits e ∧ accepts e = true) floor limit result := by
  induction backs with
  | ended low => exact Last.below low
  | @nothing limit high none_ =>
    have none' := jumps limit within
    rw [none_] at none'
    exact fun other low under both => none' other low under both.1
  | @accepted limit e high some_ accepted =>
    have some' := jumps limit within
    rw [some_] at some'
    obtain ⟨low,under,fits_,above⟩ := some'
    exact ⟨low,under,⟨fits_,accepted⟩,fun other low' under' both => above other low' under' both.1⟩
  | @rejected limit e result high some_ rejected _ ih =>
    have some' := jumps limit within
    rw [some_] at some'
    obtain ⟨low,under,fits_,above⟩ := some'
    -- Between the rejected position and the limit nothing fits.
    apply (ih (by omega)).extend (by omega)
    intro other beyond under' both
    by_cases far : floor ≤ other
    · have order := above other far under' both.1
      obtain rfl : other = e := by omega
      rw [rejected] at both
      exact Bool.false_ne_true both.2
    · omega

end Jumping

end QuilrMcp.Library.BackOff
