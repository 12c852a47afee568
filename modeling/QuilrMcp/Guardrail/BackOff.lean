import QuilrMcp.Guardrail.CardShape
import QuilrMcp.Library.BackOff

/-! The validator's back-off on card numbers. Each shortened limit gives the longest candidate below the
one that was rejected, so no position at which a candidate could end is left out. -/
namespace QuilrMcp.Guardrail.BackOff
open Library.Text
open Library.Search
open Library.BackOff
open Library.Unicode (Classes asciiClasses)
open Patterns
open Redactor
open CardShape

/-- Whether the expression can match in full what stands between two places, the text cut at the second. -/
def matchesWhole (expression : Regex) (text : Str) (start stop : Nat) : Bool :=
  (ends expression (text.take stop) start).contains stop

section Loop
variable (pattern : Pattern) (text : Str) (start : Nat)

/-- `expression.match(text, start, end)` and the verdict on what it matched. -/
abbrev next : Nat → Option Nat := matchAt pattern.expression text start
abbrev verdict (e : Nat) : Bool := pattern.accepts (slice text start e)

variable {pattern text start}

theorem next_le {limit e : Nat} (inside : start ≤ text.length) (within : start ≤ limit)
    (found : next pattern text start limit = some e) : e ≤ limit := by
  have long : start ≤ (text.take limit).length := by
    rw [List.length_take]
    omega
  have bound := ends_bound pattern.expression (text.take limit) start long e
    (List.mem_of_mem_head? found)
  rw [List.length_take] at bound
  omega

/-- With fuel beyond the limit the loop comes to its end. -/
theorem backs_backOff {floor fuel stop : Nat} (inside : start ≤ text.length) (above : start < floor)
    (enough : stop < fuel) :
    Backs (next pattern text start) (verdict pattern text start) floor stop
      (backOff pattern text start floor fuel stop) := by
  induction fuel generalizing stop with
  | zero => omega
  | succ fuel ih =>
    rw [backOff]
    split_ifs with high
    · cases found : matchAt pattern.expression text start stop with
      | none => exact .nothing high found
      | some e =>
        have short := next_le inside (by omega) found
        dsimp only
        split_ifs with ok
        · exact .accepted high found ok
        · apply Backs.rejected high found (Bool.eq_false_iff.mpr ok)
          apply ih
          omega
    · exact .ended (Nat.lt_of_not_le high)

end Loop

section Cards
variable {classes : Classes} {text : Str} {start stop : Nat}

/-- What the expression matches in full is a number behind a place that holds no digit. -/
theorem matchesWhole_iff {e : Nat} :
    matchesWhole (creditCardExpression classes) text start e = true ↔
    (0 < start → digitAt classes text (start - 1) = false) ∧ Number classes text start e := by
  rw [matchesWhole,List.contains_iff_mem,mem_card_iff,number_take]
  constructor
  · rintro ⟨before,⟨number,-⟩,-⟩
    refine ⟨fun positive => ?_,number⟩
    have long := number_length classes number
    have behind := before positive
    rwa [digitAt_take,decide_eq_true (by omega),Bool.true_and] at behind
  · rintro ⟨before,number⟩
    refine ⟨fun positive => ?_,⟨number,Nat.le_refl e⟩,?_⟩
    · rw [digitAt_take,before positive,Bool.and_false]
    · rw [digitAt_take,decide_eq_false (Nat.lt_irrefl e),Bool.false_and]

/-- The greedy match within a limit ends at the last place where a candidate can end. -/
theorem next_last {whole limit : Nat}
    (before : 0 < start → digitAt classes text (start - 1) = false)
    (full : Number classes text start whole) (below : limit ≤ whole) :
    Last (matchesWhole (creditCardExpression classes) text start · = true) (start + 13) limit
      (next (creditCard classes) text start limit) := by
  cases found : next (creditCard classes) text start limit with
  | none =>
    intro e low high candidate
    obtain ⟨_,number⟩ := matchesWhole_iff.mp candidate
    obtain ⟨e',member,_⟩ := card_within classes before full below number high
    have empty : ends (creditCardExpression classes) (text.take limit) start = [] :=
      List.head?_eq_none_iff.mp found
    rw [empty] at member
    contradiction
  | some first =>
    obtain ⟨_,number,_⟩ := (mem_card_iff classes).mp (List.mem_of_mem_head? found)
    obtain ⟨number,short⟩ := (number_take classes).mp number
    refine ⟨number_length classes number,short,matchesWhole_iff.mpr ⟨before,number⟩,
      fun e low high candidate => ?_⟩
    obtain ⟨_,other⟩ := matchesWhole_iff.mp candidate
    obtain ⟨e',member,above⟩ := card_within classes before full below other high
    obtain ⟨first',head,greatest⟩ := card_greedy classes member
    have same : first' = first := Option.some.inj (head.symm.trans found)
    omega

theorem backs_validatedEnd (inside : start ≤ text.length) (stop : Nat) :
    Backs (next (creditCard classes) text start) (verdict (creditCard classes) text start)
      (start + 13) stop
      (validatedEnd (creditCard classes) text start stop) := by
  have loop : validatedEnd (creditCard classes) text start stop =
      backOff (creditCard classes) text start (start + 13) (stop + 1) stop := rfl
  rw [loop]
  exact backs_backOff inside (by omega) (Nat.lt_succ_self stop)

/-- It ends at the last candidate that the validator accepts. -/
theorem validatedEnd_last
    (head : (ends (creditCardExpression classes) text start).head? = some stop) :
    Last (fun e => matchesWhole (creditCardExpression classes) text start e = true ∧
      luhnValid classes (slice text start e) = true)
      (start + 13) stop (validatedEnd (creditCard classes) text start stop) := by
  obtain ⟨before,full,_⟩ := (mem_card_iff classes).mp (List.mem_of_mem_head? head)
  have inside : start ≤ text.length := by
    have long := number_length classes full
    have within := number_inside classes full
    omega
  exact (backs_validatedEnd inside stop).last (fun limit below => next_last before full below)
    (Nat.le_refl stop)

end Cards

/-- Of a match of the card expression the loop ends, with the longest candidate that the validator accepts,
and so does a search that tries every end. -/
theorem jumping_back_off (classes : Classes) (text : Str) {searchFrom start stop : Nat}
    (found : search (creditCard classes).expression text searchFrom = some (start,stop)) :
    Backs (next (creditCard classes) text start) (verdict (creditCard classes) text start)
        (start + max (creditCard classes).validateMinLength 1) stop
        (validatedEnd (creditCard classes) text start stop) ∧
      Last (fun e => matchesWhole (creditCard classes).expression text start e = true ∧
        luhnValid classes (slice text start e) = true)
        (start + 13) stop (validatedEnd (creditCard classes) text start stop) ∧
      everyDown (fun e => matchesWhole (creditCard classes).expression text start e &&
        luhnValid classes (slice text start e))
        (start + 13) stop = validatedEnd (creditCard classes) text start stop := by
  obtain ⟨-,inside,head,-⟩ := search_some found
  have last := validatedEnd_last head
  refine ⟨backs_validatedEnd inside stop,last,?_⟩
  have every := everyDown_last
    (fun e => matchesWhole (creditCard classes).expression text start e &&
      luhnValid classes (slice text start e)) (start + 13) stop
  simp only [Bool.and_eq_true] at every
  exact every.unique last

/-- A card number that the greedy match runs past. -/
theorem jumping_back_off_swallowed :
    validatedEnd (creditCard asciiClasses) (lit "4111111111111111 123-45-6789") 0 20 = some 16 ∧
      everyDown (fun e => matchesWhole (creditCard asciiClasses).expression
        (lit "4111111111111111 123-45-6789") 0 e &&
        luhnValid asciiClasses (slice (lit "4111111111111111 123-45-6789") 0 e)) 13 20 =
          some 16 := by
  have found : search (creditCard asciiClasses).expression (lit "4111111111111111 123-45-6789") 0 =
    some (0,20) := by
    decide +kernel
  have accepted : validatedEnd (creditCard asciiClasses) (lit "4111111111111111 123-45-6789") 0 20 =
    some 16 := by
    decide +kernel
  exact ⟨accepted,(jumping_back_off asciiClasses _ found).2.2.trans accepted⟩

end QuilrMcp.Guardrail.BackOff
