import QuilrMcp.Guardrail.Passes

/-! No social security number survives. What has been emitted stays sealed: no number begins in
it, whatever is held and whatever still arrives. -/
namespace QuilrMcp.Guardrail.SsnSafety
open Library.Text
open Library.Search
open Library.Sealing
open Library.Unicode (Classes isAsciiDigit)
open Patterns
open Redactor
open Passes

variable (classes : Classes)

/-- A text that is a social security number as the expression has it. -/
def Ssn (window : Str) : Prop := window.length = 11 ∧ ends (ssnExpression classes) window 0 ≠ []

private theorem ssn_span : span (ssnExpression classes) = some (11,11) := rfl

private theorem ssn_minLength : minLength (ssnExpression classes) = 11 := rfl

private theorem ssn_behindFree : behindFree (ssnExpression classes) = true := rfl

private theorem ssn_end {text : Str} {i e : Nat} (inside : i ≤ text.length)
    (member : e ∈ ends (ssnExpression classes) text i) :
    e = i + 11 ∧ e ≤ text.length := by
  have low := ends_bound _ text i inside e member
  have high := ends_size _ text 11 11 (ssn_span classes) i e member
  rw [ssn_minLength] at low
  omega

private theorem ssn_filled {window : Str} (ssn : Ssn classes window) : window ≠ [] := by
  intro empty
  have long := ssn.1
  rw [empty,List.length_nil] at long
  omega

private theorem ends_of_ssn {left window right : Str} (ssn : Ssn classes window) :
    (ends (ssnExpression classes) (left ++ (window ++ right)) left.length).head? =
      some (left.length + 11) := by
  obtain ⟨long,matched⟩ := ssn
  rw [ends_window _ (ssn_behindFree classes) 11 11 (ssn_span classes) left window right (by omega)]
  obtain ⟨e,rest,shape⟩ := List.exists_cons_of_ne_nil matched
  have ending :=
    ssn_end classes (Nat.zero_le _) (shape ▸ List.mem_cons_self : e ∈ ends
      (ssnExpression classes) window 0)
  rw [shape,List.map_cons,List.head?_cons,ending.1,Nat.zero_add]

private theorem ssn_of_ends {text : Str} {i : Nat} (inside : i ≤ text.length)
    (matched : ends (ssnExpression classes) text i ≠ []) :
    ∃ left window right, text = left ++ (window ++ right) ∧ left.length = i ∧
    Ssn classes window := by
  obtain ⟨e,rest,shape⟩ := List.exists_cons_of_ne_nil matched
  have ending :=
    ssn_end classes inside (shape ▸ List.mem_cons_self : e ∈ ends (ssnExpression classes) text i)
  have whole : text = text.take i ++ ((text.drop i).take 11 ++ (text.drop i).drop 11) := by
    rw [List.take_append_drop,List.take_append_drop]
  have front : (text.take i).length = i := by rw [List.length_take]; omega
  have long : ((text.drop i).take 11).length = 11 := by
    rw [List.length_take,List.length_drop]; omega
  refine ⟨_,_,_,whole,front,long,fun empty => matched ?_⟩
  have same := ends_window _ (ssn_behindFree classes) 11 11 (ssn_span classes) (text.take i)
    ((text.drop i).take 11)
    ((text.drop i).drop 11) (by omega)
  rw [← whole,front,empty] at same
  exact same

private theorem ssn_ends {window : Str} (ssn : Ssn classes window) :
    11 ∈ ends (ssnExpression classes) window 0 ∧ slice window 0 11 = window := by
  obtain ⟨long,matched⟩ := ssn
  obtain ⟨e,rest,shape⟩ := List.exists_cons_of_ne_nil matched
  have member : e ∈ ends (ssnExpression classes) window 0 := shape ▸ List.mem_cons_self
  obtain rfl := (ssn_end classes (Nat.zero_le _) member).1
  refine ⟨member,?_⟩
  rw [slice,List.drop_zero,List.take_of_length_le (by omega)]

theorem ssn_codes {window : Str} (ssn : Ssn classes window) :
    ∀ code ∈ window, classes.isDecimal code = true ∨ code = 45 := by
  have member := (ssn_ends classes ssn).1
  have within : Within (fun code => classes.isDecimal code = true ∨
    code = 45) (ssnExpression classes) := by
    have hyphen : lit "-" = [45] := by decide
    simp only [ssnExpression,Regex.sequence,Within,digits,digit,hyphen,Regex.literal,List.map_cons,
      List.map_nil,beq_iff_eq]
    simpa using fun code decimal => Or.inl decimal
  intro code found
  obtain ⟨k,bound,same⟩ := List.mem_iff_getElem.mp found
  obtain ⟨code',here,accepted⟩ := ends_covered _ _ within window 0 11 member k (Nat.zero_le _)
    (by have := ssn.1; omega)
  rw [List.getElem?_eq_getElem bound,same] at here
  cases here
  exact accepted

theorem ssn_hyphens {window : Str} (ssn : Ssn classes window) : 2 ≤ window.count 45 := by
  obtain ⟨member,whole⟩ := ssn_ends classes ssn
  have hyphen : Counts (· == 45) (.literal (lit "-")) 1 := .char (fun _ same => same)
  have counts : Counts (· == 45) (ssnExpression classes) (0 + (0 + (1 + (0 + (0 + (1 + 0)))))) :=
    .seq (.any _)
      (.seq (.any _) (.seq hyphen (.seq (.any _) (.seq (.any _) (.seq hyphen (.any _))))))
  have least := @counts_ends _ _ _ counts window 0 (Nat.zero_le _) 11 member
  rw [whole] at least
  rw [List.count_eq_countP]
  exact least

private theorem ssn_clean {window : Str} (ssn : Ssn classes window) :
    Clean redactionPlaceholder window := by
  intro code found placed
  obtain ⟨other,_,apart⟩ := placeholder_plain classes code placed
  rcases ssn_codes classes ssn code found with decimal | hyphen
  · rw [other] at decimal
    contradiction
  · exact apart hyphen

private theorem ssn_spared {text : Str} {left window right : Str} {protectTail : Bool}
    (whole : text = left ++ (window ++ right)) (ssn : Ssn classes window)
    (spared : Spared (Patterns.ssn classes) text protectTail left.length) :
    protectTail = true ∧ right = [] := by
  have first := @ends_of_ssn classes left _ right ssn
  rw [← whole] at first
  obtain ⟨protect,reach⟩ := spared (left.length + 11) (left.length + 11) first rfl
  refine ⟨protect,List.eq_nil_of_length_eq_zero ?_⟩
  have size := congrArg List.length whole
  rw [List.length_append,List.length_append,ssn.1] at size
  omega

private theorem ssn_listed : Patterns.ssn classes ∈ defaultPatterns classes :=
  List.mem_cons_of_mem _ List.mem_cons_self

theorem redact_ssn {text left window right : Str} {protectTail : Bool}
    (shape : (redact redactionPlaceholder protectTail (defaultPatterns classes) text).1 = left ++
      (window ++ right))
    (ssn : Ssn classes window) : protectTail = true ∧ right = [] := by
  obtain ⟨left',right',_,_,after,spared⟩ :=
    redact_window placeholder_filled (defaultPatterns classes)
    (default_advancing classes) (ssn_listed classes) (ssn_filled classes ssn)
    (ssn_clean classes ssn) shape
  obtain ⟨protect,rfl⟩ := ssn_spared classes rfl ssn spared
  exact ⟨protect,rewrites_of_nil after⟩

private theorem holdback_ssn {text : Str}
    (suffixes : ∀ left window right, text = left ++ (window ++ right) →
      Ssn classes window → right = [])
    (more : Str) : Sealed (Ssn classes) (text.take (holdbackIndex (defaultPatterns classes) text))
      (text.drop (holdbackIndex (defaultPatterns classes) text) ++ more) := by
  intro before after window tail split filled shape ssn
  have whole : text ++ more = before ++ (window ++ tail) := by
    rw [← shape,← List.append_assoc,← List.append_assoc,← split,List.take_append_drop]
  have early : before.length < holdbackIndex (defaultPatterns classes) text := by
    have size := congrArg List.length split
    have some_ := List.length_pos_of_ne_nil filled
    rw [List.length_take,List.length_append] at size
    omega
  have inside := holdbackIndex_le_length (defaultPatterns classes) text
  have first := @ends_of_ssn classes before _ tail ssn
  rw [← whole] at first
  have ending (i e : Nat) (low : i ≤ text.length)
    (matched : (ends (ssnExpression classes) text i).head? = some e) :
      e = i + 11 ∧ e = text.length := by
    have member := List.mem_of_mem_head? matched
    obtain ⟨left,found,right,same,place,here⟩ := ssn_of_ends classes low (List.ne_nil_of_mem member)
    obtain rfl := suffixes left found right same here
    have size := congrArg List.length same
    rw [List.append_nil,List.length_append,here.1] at size
    have := ssn_end classes low member
    omega
  have open_ : ends (ssnExpression classes) text before.length ≠ [] ∨
      touches (ssnExpression classes) text before.length = true ∧
        ∀ i, before.length < i → i ≤ text.length → ends (ssnExpression classes) text i = [] := by
    cases touched : touches (ssnExpression classes) text before.length with
    | true =>
      refine Or.inr ⟨rfl,fun i after low => ?_⟩
      have near : text.length < before.length + 11 := by
        by_contra far
        rw [touches_of_reach _ text 11 11 (ssn_span classes) before.length (by omega)] at touched
        exact Bool.false_ne_true touched
      by_contra matched
      obtain ⟨e,rest,shape⟩ := List.exists_cons_of_ne_nil matched
      have := ending i e low (by rw [shape]; rfl)
      omega
    | false =>
      rw [(ends_append _ text more before.length (by omega) touched).1] at first
      exact Or.inl (List.ne_nil_of_mem (List.mem_of_mem_head? first))
  obtain ⟨hit,member,unfinished,low⟩ := finditer_unfinished (ssnExpression classes) text
    (by rw [ssn_minLength]; omega) before.length (by omega) open_ (by
      intro hit member complete _
      obtain ⟨low,matched⟩ := finditer_complete _ text hit member complete
      exact Or.inr (ending _ _ low matched).2)
  have bound :=
    holdbackIndex_le (defaultPatterns classes) text (ssn_listed classes) member unfinished
  omega

/-- No number begins in what has been emitted, whatever follows what is held. -/
def Safe (emitted : Str) (self : StreamRedactor) : Prop :=
  ∀ more, Sealed (Ssn classes) emitted (self.buffer ++ more)

private theorem safe_absorbed {emitted buffer rest out : Str} {next : StreamRedactor}
    (safe : ∀ more, Sealed (Ssn classes) emitted (buffer ++ more))
    (absorbed : Absorbed (Options.default classes) buffer rest next out) :
    Safe classes (emitted ++ out) next := by
  have rewrites (more : Str) : Rewrites redactionPlaceholder (buffer ++ (rest ++ more))
      (settled (Options.default classes) buffer rest ++ more) := by
    rw [← List.append_assoc]
    exact rewrites_append (redact_rewrites placeholder_filled true _ (default_advancing classes) _)
      .refl
  have before (more : Str) : Sealed (Ssn classes) emitted
    (settled (Options.default classes) buffer rest ++ more) :=
    sealed_rewrites placeholder_filled (fun window ssn => ssn_clean classes ssn)
      (safe (rest ++ more)) (rewrites more)
  have here := @holdback_ssn classes (settled (Options.default classes) buffer rest)
    (fun left window right shape ssn => (redact_ssn classes shape ssn).2)
  have split (more : Str) : Sealed (Ssn classes) (emitted ++
    (settled (Options.default classes) buffer rest).take
      (holdbackIndex (defaultPatterns classes) (settled (Options.default classes) buffer rest)))
      ((settled (Options.default classes) buffer rest).drop
      (holdbackIndex (defaultPatterns classes) (settled (Options.default classes) buffer rest)) ++
        more) := by
    refine sealed_append ?_ (here more)
    rw [← List.append_assoc,List.take_append_drop]
    exact before more
  intro more
  cases absorbed with
  | split held _ _ =>
    rw [held]
    exact split more
  | overflow empty _ _ =>
    rw [empty,← List.append_assoc]
    refine sealed_append ?_ (sealed_placeholder (fun window ssn =>
      ⟨ssn_filled classes ssn,ssn_clean classes ssn⟩) _)
    exact sealed_closed placeholder_filled (fun window ssn => ssn_clean classes ssn) (split []) more

theorem safe_feed {emitted : Str} {self : StreamRedactor} (safe : Safe classes emitted self)
    (chunk : Str) :
    Safe classes (emitted ++ (self.feed (Options.default classes) chunk).2)
      (self.feed (Options.default classes) chunk).1 := by
  rcases feed_cases (Options.default classes) self chunk with ⟨_,out,buffer,_⟩ | ⟨_,absorbed⟩
  · rw [out,List.append_nil]
    intro more
    rw [buffer]
    exact safe more
  · exact safe_absorbed classes safe absorbed

theorem safe_feedAll {emitted : Str} {self : StreamRedactor} (safe : Safe classes emitted self)
    (chunks : List Str) :
    Safe classes (emitted ++ (self.feedAll (Options.default classes) chunks).2)
      (self.feedAll (Options.default classes) chunks).1 := by
  induction chunks generalizing emitted self with
  | nil =>
    rw [StreamRedactor.feedAll,List.append_nil]
    exact safe
  | cons chunk chunks ih =>
    rw [StreamRedactor.feedAll,← List.append_assoc]
    exact ih (safe_feed classes safe chunk)

private theorem redact_sealed (text : Str) :
    Sealed (Ssn classes) (redact redactionPlaceholder false (defaultPatterns classes) text).1
      [] := by
  intro before after window more split _ shape ssn
  rw [List.append_nil] at shape
  rw [shape] at split
  exact Bool.false_ne_true (redact_ssn classes split ssn).1

theorem sealed_flush {emitted : Str} {self : StreamRedactor} (safe : Safe classes emitted self) :
    Sealed (Ssn classes) (emitted ++ (self.flush (Options.default classes)).2) [] := by
  have rewrites :=
    redact_rewrites placeholder_filled false _ (default_advancing classes) self.buffer
  rw [flush_out]
  refine sealed_append ?_ (redact_sealed classes self.buffer)
  exact sealed_rewrites placeholder_filled (fun window ssn => ssn_clean classes ssn) (safe [])
    (rewrites_append rewrites .refl)

theorem safe_start (self : StreamRedactor) : Safe classes [] self := fun _ => sealed_nil _

/-- The expression matches nowhere in a text without a number. -/
theorem search_ssn_iff (text : Str) :
    search (ssnExpression classes) text 0 = none ↔ ∀ window, Ssn classes window →
    ¬ window <:+: text := by
  rw [search_eq_none_iff]
  constructor
  · rintro empty window ssn ⟨left,right,rfl⟩
    have first := @ends_of_ssn classes left window right ssn
    rw [← List.append_assoc,empty left.length (Nat.zero_le _) (by simp)] at first
    contradiction
  · intro clean i _ high
    by_contra matched
    obtain ⟨left,window,right,rfl,_,ssn⟩ := ssn_of_ends classes high matched
    exact clean window ssn ⟨left,right,by rw [List.append_assoc]⟩

theorem search_of_sealed {out rest : Str} (sealed : Sealed (Ssn classes) out rest) :
    ∀ part, part <:+: out → search (ssnExpression classes) part 0 = none := by
  intro part inside
  rw [search_ssn_iff]
  intro window ssn within
  exact sealed_infix sealed (within.trans inside) (ssn_filled classes ssn) ssn

theorem process_sealed (chunks : List Str) :
    Sealed (Ssn classes) (StreamRedactor.new.process (Options.default classes) chunks) [] :=
  sealed_flush classes (safe_feedAll classes (safe_start classes .new) chunks)

theorem process_clean (chunks : List Str) {window : Str} (ssn : Ssn classes window) :
    ¬ window <:+: StreamRedactor.new.process (Options.default classes) chunks := by
  intro inside
  exact sealed_infix (process_sealed classes chunks) inside (ssn_filled classes ssn) ssn

/-- No part of what a stream emits matches the expression of a social security number. -/
theorem no_ssn_survives (chunks : List Str) (start size : Nat) : search (ssnExpression classes)
      (((StreamRedactor.new.process (Options.default classes) chunks).drop start).take size) 0 =
        none := by
  exact search_of_sealed classes (process_sealed classes chunks) _
    ((List.take_prefix _ _).isInfix.trans (List.drop_suffix _ _).isInfix)

end QuilrMcp.Guardrail.SsnSafety
