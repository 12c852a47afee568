import QuilrMcp.Guardrail.BackOff

/-! Which stretches the card pass replaces. The validator backs off to the longest number that passes
the checksum, and within a shortened limit the guard behind it sees the end of the text: so a number
can be taken that breaks off before a digit. -/
namespace QuilrMcp.Guardrail.CardSpans
open Library.Text
open Library.Search
open Library.Unicode (Classes asciiClasses)
open Patterns
open Redactor
open Passes
open CardShape

section Cards
variable (classes : Classes) (text : Str) (protectTail : Bool)

/-- The longest number that passes the checksum, within a match that begins at the place. A digit
may follow it. -/
structure Chosen (i e : Nat) : Prop where
  before : 0 < i → digitAt classes text (i - 1) = false
  number : Number classes text i e
  valid : luhnValid classes (slice text i e) = true
  within : ∃ stop, e ≤ stop ∧ Number classes text i stop ∧ digitAt classes text stop = false
  longest : ∀ longer stop, e < longer → longer ≤ stop → Number classes text i longer →
    Number classes text i stop →
    digitAt classes text stop = false → luhnValid classes (slice text i longer) = false

/-- What the pass replaces: not a number up to the protected end. -/
def Taken (i e : Nat) : Prop := Chosen classes text i e ∧ ¬ (protectTail = true ∧ e = text.length)

/-- The places that the pass comes to: one further, or behind what it takes. -/
inductive Reaches : Nat → Nat → Prop
  | here (i : Nat) : Reaches i i
  | past {i j : Nat} : (∀ e, ¬ Taken classes text protectTail i e) → Reaches (i + 1) j → Reaches i j
  | behind {i e j : Nat} : Taken classes text protectTail i e → Reaches e j → Reaches i j

variable {classes text protectTail}

private theorem candidate {i e : Nat} (before : 0 < i → digitAt classes text (i - 1) = false)
    (number : Number classes text i e) (valid : ¬ luhnValid classes (slice text i e) = false) :
    BackOff.matchesWhole (creditCardExpression classes) text i e = true ∧
    luhnValid classes (slice text i e) = true :=
  ⟨BackOff.matchesWhole_iff.mpr ⟨before,number⟩,Bool.not_eq_false _ ▸ valid⟩

/-- Where the validator accepts nothing, no number up to the end of the match passes. -/
theorem validatedEnd_none {i stop : Nat}
    (head : (ends (creditCardExpression classes) text i).head? = some stop)
    (none_ : validatedEnd (creditCard classes) text i stop = none) :
    ∀ e ≤ stop, Number classes text i e → luhnValid classes (slice text i e) = false := by
  obtain ⟨before,_,_⟩ := (mem_card_iff classes).mp (List.mem_of_mem_head? head)
  have last := BackOff.validatedEnd_last head
  rw [none_] at last
  intro e short number
  by_contra valid
  exact last e (number_length classes number) short (candidate before number valid)

theorem validatedEnd_iff {i stop e : Nat}
    (head : (ends (creditCardExpression classes) text i).head? = some stop) :
    validatedEnd (creditCard classes) text i stop = some e ↔ Chosen classes text i e := by
  obtain ⟨before,full,after⟩ := (mem_card_iff classes).mp (List.mem_of_mem_head? head)
  have most (other : Nat) (number : Number classes text i other)
    (ended : digitAt classes text other = false) : other ≤ stop := by
    obtain ⟨first,head',greatest⟩ :=
      card_greedy classes ((mem_card_iff classes).mpr ⟨before,number,ended⟩)
    rw [head] at head'
    cases head'
    exact greatest
  have last := BackOff.validatedEnd_last head
  constructor
  · intro found
    rw [found] at last
    obtain ⟨_,short,⟨whole,valid⟩,longest⟩ := last
    have number := (BackOff.matchesWhole_iff.mp whole).2
    refine ⟨before,number,valid,⟨stop,short,full,after⟩,
      fun longer other above within number' number'' ended => ?_⟩
    by_contra passes
    have within' := Nat.le_trans within (most other number'' ended)
    have order := longest longer (number_length classes number') within'
      (candidate before number' passes)
    omega
  · intro chosen
    obtain ⟨other,within,number,ended⟩ := chosen.within
    have short := Nat.le_trans within (most other number ended)
    have here := candidate before chosen.number (by simp [chosen.valid])
    refine last.unique (show Library.BackOff.Last _ _ _
      (some e) from ⟨number_length classes chosen.number,short,here,?_⟩)
    intro longer _ high both
    by_contra above
    have failed := chosen.longest longer stop (Nat.lt_of_not_le above) high
      (BackOff.matchesWhole_iff.mp both.1).2 full after
    rw [both.2] at failed
    contradiction

theorem chosen_matched {i e : Nat} (chosen : Chosen classes text i e) :
    ends (creditCardExpression classes) text i ≠ [] := by
  obtain ⟨stop,_,number,ended⟩ := chosen.within
  exact List.ne_nil_of_mem ((mem_card_iff classes).mpr ⟨chosen.before,number,ended⟩)

private theorem reaches_skip {i m j : Nat} (order : i ≤ m)
    (none_ : ∀ k, i ≤ k → k < m → ∀ e, ¬ Taken classes text protectTail k e)
    (later : Reaches classes text protectTail m j) : Reaches classes text protectTail i j := by
  by_cases same : i = m
  · exact same ▸ later
  · exact .past (none_ i (Nat.le_refl i) (by omega)) (reaches_skip (by omega) (fun k low high =>
      none_ k (by omega) high) later)
termination_by m - i

private theorem reaches_beyond {i m j : Nat} (reaches : Reaches classes text protectTail i j)
    (order : i ≤ m) (none_ : ∀ k, i ≤ k → k < m → ∀ e, ¬ Taken classes text protectTail k e) :
    j < m ∨ Reaches classes text protectTail m j := by
  induction reaches with
  | here i =>
    rcases Nat.eq_or_lt_of_le order with rfl | less
    · exact Or.inr (.here i)
    · exact Or.inl less
  | @past i j empty later ih =>
    rcases Nat.eq_or_lt_of_le order with rfl | less
    · exact Or.inr (.past empty later)
    · exact ih less (fun k low high => none_ k (by omega) high)
  | @behind i e j taken later ih =>
    rcases Nat.eq_or_lt_of_le order with rfl | less
    · exact Or.inr (.behind taken later)
    · exact absurd taken (none_ i (Nat.le_refl i) less e)

private theorem reaches_le {i j : Nat} (reaches : Reaches classes text protectTail i j) :
    i ≤ j := by
  induction reaches with
  | here i => exact Nat.le_refl i
  | past _ _ ih => omega
  | behind taken _ ih =>
    have := number_length classes taken.1.number
    omega

private theorem chosen_unique {i e e' : Nat} (chosen : Chosen classes text i e)
    (chosen' : Chosen classes text i e') : e = e' := by
  obtain ⟨stop,within,number,ended⟩ := chosen.within
  obtain ⟨stop',within',number',ended'⟩ := chosen'.within
  rcases Nat.lt_trichotomy e e' with less | same | greater
  · have failed := chosen.longest e' stop' less within' chosen'.number number' ended'
    rw [chosen'.valid] at failed
    contradiction
  · exact same
  · have failed := chosen'.longest e stop greater within chosen.number number ended
    rw [chosen.valid] at failed
    contradiction

/-- Up to where something is taken the pass may be taken up anywhere. -/
private theorem taken_ahead {from_ first start stop : Nat} (low : from_ ≤ first)
    (none_ : ∀ k, from_ ≤ k → k < first → ∀ e, ¬ Taken classes text protectTail k e) :
    Reaches classes text protectTail from_ start ∧ Taken classes text protectTail start stop ↔
      Reaches classes text protectTail first start ∧ Taken classes text protectTail start stop := by
  constructor
  · rintro ⟨reaches,taken⟩
    rcases reaches_beyond reaches low none_ with before | beyond
    · exact absurd taken (none_ start (reaches_le reaches) before stop)
    · exact ⟨beyond,taken⟩
  · rintro ⟨reaches,taken⟩
    exact ⟨reaches_skip low none_ reaches,taken⟩

private theorem taken_onward {first start stop : Nat}
    (spared : ∀ e, ¬ Taken classes text protectTail first e) :
    Reaches classes text protectTail first start ∧ Taken classes text protectTail start stop ↔
      Reaches classes text protectTail (first + 1) start ∧
      Taken classes text protectTail start stop := by
  constructor
  · rintro ⟨reaches,taken⟩
    cases reaches with
    | here => exact absurd taken (spared stop)
    | past _ later => exact ⟨later,taken⟩
    | behind taken' _ => exact absurd taken' (spared _)
  · rintro ⟨reaches,taken⟩
    exact ⟨.past spared reaches,taken⟩

private theorem mem_spansFrom_iff {fuel searchFrom start stop : Nat}
    (enough : text.length + 1 < fuel + searchFrom) :
    (start,stop) ∈ spansFrom (creditCard classes) text protectTail fuel searchFrom ↔
      Reaches classes text protectTail searchFrom start ∧
      Taken classes text protectTail start stop := by
  have outside {from_ : Nat} (past : text.length < from_) :
      ¬ (Reaches classes text protectTail from_ start ∧
        Taken classes text protectTail start stop) := by
    rintro ⟨reaches,taken⟩
    have := reaches_le reaches
    have := number_length classes taken.1.number
    have := number_inside classes taken.1.number
    omega
  induction fuel generalizing searchFrom with
  | zero => exact iff_of_false List.not_mem_nil (outside (by omega))
  | succ fuel ih =>
    rw [spansFrom]
    split_ifs with within
    · cases found : search (creditCard classes).expression text searchFrom with
      | none =>
        refine iff_of_false List.not_mem_nil ?_
        rintro ⟨reaches,taken⟩
        have low := reaches_le reaches
        have := number_length classes taken.1.number
        have := number_inside classes taken.1.number
        exact chosen_matched taken.1 (search_none found start low (by omega))
      | some pair =>
        obtain ⟨first,whole⟩ := pair
        obtain ⟨low,inside,head,empty⟩ := search_some found
        have none_ (k : Nat) (above : searchFrom ≤ k) (below : k < first) (e : Nat) :
          ¬ Taken classes text protectTail k e :=
          fun taken => chosen_matched taken.1 (empty k above below)
        rw [taken_ahead low none_]
        cases valid : validatedEnd (creditCard classes) text first whole with
        | none =>
          simp only [valid]
          refine (@ih (first + 1) (by omega)).trans (taken_onward (fun e taken => ?_)).symm
          rw [(validatedEnd_iff head).mpr taken.1] at valid
          contradiction
        | some accepted =>
          have chosen := (validatedEnd_iff head).mp valid
          have long := number_length classes chosen.number
          simp only [valid]
          split_ifs with held forward
          · refine (@ih (first + 1) (by omega)).trans (taken_onward (fun e taken => ?_)).symm
            obtain rfl := chosen_unique chosen taken.1
            exact taken.2 (by simpa using held)
          · have taken : Taken classes text protectTail first accepted :=
              ⟨chosen,by simpa using held⟩
            have later := @ih accepted (by omega)
            rw [List.mem_cons,Prod.mk.injEq]
            constructor
            · rintro (⟨rfl,rfl⟩ | member)
              · exact ⟨.here _,taken⟩
              · obtain ⟨reaches,taken'⟩ := later.mp member
                exact ⟨.behind taken reaches,taken'⟩
            · rintro ⟨reaches,taken'⟩
              cases reaches with
              | here => exact Or.inl ⟨rfl,chosen_unique taken'.1 chosen⟩
              | past none_ _ => exact absurd taken (none_ accepted)
              | behind other behind =>
                obtain rfl := chosen_unique chosen other.1
                exact Or.inr (later.mpr ⟨behind,taken'⟩)
          · omega
    · exact iff_of_false List.not_mem_nil (outside (by omega))

/-- The pass replaces what is taken at the places that it comes to. -/
theorem mem_passSpans_iff {start stop : Nat} :
    (start,stop) ∈ passSpans (creditCard classes) text protectTail ↔
    Reaches classes text protectTail 0 start ∧ Taken classes text protectTail start stop :=
  mem_spansFrom_iff (by omega)

variable (classes text protectTail)

/-- A run of digits between places that hold none. -/
def DigitRun (i n : Nat) : Prop := (∀ k < n, digitAt classes text (i + k) = true) ∧
  (0 < i → digitAt classes text (i - 1) = false) ∧ digitAt classes text (i + n) = false

/-- What the pass replaces stands between places that hold no digit and passes the checksum, and a
run that fails the checksum is left as it is. -/
structure ReplacesWhole : Prop where
  whole : ∀ start stop, (start,stop) ∈ passSpans (creditCard classes) text protectTail →
    (0 < start → digitAt classes text (start - 1) = false) ∧ digitAt classes text stop = false ∧
      luhnValid classes (slice text start stop) = true
  untouched : ∀ i n, DigitRun classes text i n → 13 ≤ n → n ≤ 19 →
    luhnValid classes (slice text i (i + n)) = false →
    ∀ start stop, (start,stop) ∈ passSpans (creditCard classes) text protectTail →
    stop ≤ i ∨ i + n ≤ start

/-- No number that the pass comes to and takes breaks off before a digit, and none joins to others a
run that fails on its own. -/
def TakesWhole : Prop :=
  ∀ i e, Reaches classes text protectTail 0 i → Taken classes text protectTail i e →
  digitAt classes text e = false ∧ ∀ j n, i ≤ j → j + n ≤ e → DigitRun classes text j n →
  13 ≤ n → n ≤ 19 →
    luhnValid classes (slice text j (j + n)) = true

variable {classes text protectTail}

private theorem run_inside {i n start stop : Nat} (run : DigitRun classes text i n)
    (before : 0 < start → digitAt classes text (start - 1) = false)
    (after : digitAt classes text stop = false) (low : i < stop) (high : start < i + n) :
    start ≤ i ∧ i + n ≤ stop := by
  constructor
  · by_contra later
    have digit := run.1 (start - 1 - i) (by omega)
    rw [show i + (start - 1 - i) = start - 1 by omega,before (by omega)] at digit
    contradiction
  · by_contra short
    have digit := run.1 (stop - i) (by omega)
    rw [show i + (stop - i) = stop by omega,after] at digit
    contradiction

variable (classes text protectTail)

/-- The pass replaces whole numbers exactly on the texts where the numbers it comes to are whole. -/
theorem replacesWhole_iff :
    ReplacesWhole classes text protectTail ↔ TakesWhole classes text protectTail := by
  constructor
  · intro replaces i e reaches taken
    have member := mem_passSpans_iff.mpr ⟨reaches,taken⟩
    refine ⟨(replaces.whole i e member).2.1,fun j n low high run least most => ?_⟩
    by_contra failed
    rcases replaces.untouched j n run least most (Bool.eq_false_iff.mpr failed) i e
      member with before | after
    · omega
    · omega
  · intro takes
    refine ⟨fun start stop member => ?_,fun i n run least most failed start stop member => ?_⟩
    · obtain ⟨reaches,taken⟩ := mem_passSpans_iff.mp member
      exact ⟨taken.1.before,(takes start stop reaches taken).1,taken.1.valid⟩
    · obtain ⟨reaches,taken⟩ := mem_passSpans_iff.mp member
      obtain ⟨after,runs⟩ := takes start stop reaches taken
      by_contra overlap
      rw [not_or,Nat.not_le,Nat.not_le] at overlap
      obtain ⟨low,high⟩ := run_inside run taken.1.before after overlap.1 overlap.2
      rw [runs i n low high run least most] at failed
      contradiction

end Cards

/-- Seventeen digits that fail the checksum: the first sixteen of them are replaced. -/
theorem order_number_broken :
    ¬ ReplacesWhole asciiClasses (lit "order 41111111111111111 shipped") false := by
  intro replaces
  have member : (6,22) ∈ passSpans (creditCard asciiClasses) (lit "order 41111111111111111 shipped")
    false := by decide +kernel
  have after := (replaces.whole 6 22 member).2.1
  revert after
  decide

end QuilrMcp.Guardrail.CardSpans
