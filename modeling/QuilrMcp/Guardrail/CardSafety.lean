import QuilrMcp.Guardrail.BackOff

/-! When a card number survives. The split scan is blind to the validator and does not overlap: a
complete match that begins before a card, or the part of a card that has arrived, hides the card
from it. In a run in which no card is hidden none is emitted. -/
namespace QuilrMcp.Guardrail.CardSafety
open Library.Text
open Library.Search
open Library.Sealing
open Library.Unicode (Classes isAsciiDigit asciiClasses)
open Patterns
open Redactor
open Passes
open CardShape

variable (classes : Classes) (card : Str)

/-- Every occurrence of the card stands between places that hold no digit. -/
def Apart (text : Str) : Prop := ∀ i ≤ text.length, card <+: text.drop i →
  (0 < i → digitAt classes text (i - 1) = false) ∧ digitAt classes text (i + card.length) = false

instance (text : Str) : Decidable (Apart classes card text) := by unfold Apart; infer_instance

/-- The complete match stops short of the end of the text and covers the start of a card that it
does not begin with, or that runs past the end. -/
def Hides (text : Str) (i : Nat) (hit : Hit) : Prop :=
  hit.isPartial = false ∧ hit.start ≤ i ∧ i < hit.stop ∧ hit.stop < text.length ∧
    (hit.start < i ∨ text.length < i + card.length)

instance (text : Str) (i : Nat) (hit : Hit) : Decidable (Hides card text i hit) := by
  unfold Hides; infer_instance

/-- No card that begins in the text is hidden from the scan, given what follows. -/
def Visible (text more : Str) : Prop := ∀ i < text.length, card <+: (text ++ more).drop i →
  ∀ hit ∈ finditer (creditCardExpression classes) text, ¬ Hides card text i hit

instance (text more : Str) : Decidable (Visible classes card text more) := by
  unfold Visible; infer_instance

/-- At every feed of the run that redacts anything, no card is hidden. -/
def NeverHidden : StreamRedactor → List Str → Prop
  | _, [] => True
  | self, chunk::chunks =>
    (remainder (.default classes) self chunk ≠ [] →
      Visible classes card (settled (.default classes) self.buffer
        (remainder (.default classes) self chunk)) chunks.flatten) ∧
    NeverHidden (self.feed (.default classes) chunk).1 chunks

instance decidableNeverHidden :
    (self : StreamRedactor) → (chunks : List Str) → Decidable (NeverHidden classes card self chunks)
  | _, [] => .isTrue trivial
  | self, chunk::chunks =>
    have := decidableNeverHidden (self.feed (.default classes) chunk).1 chunks
    inferInstanceAs (Decidable (_ ∧ _))

section Shape
variable {classes card}

private theorem card_clean (number : CardNumber classes card) :
    Clean redactionPlaceholder card := by
  have covered := number_covered classes (@number_of_card classes [] card [] number)
  intro code found placed
  obtain ⟨k,bound,same⟩ := List.mem_iff_getElem.mp found
  obtain ⟨code',here,accepted⟩ := covered k (Nat.zero_le _) (by simpa using bound)
  rw [List.nil_append,List.append_nil,List.getElem?_eq_getElem bound,same] at here
  cases here
  obtain ⟨other,notSpace,notHyphen⟩ := placeholder_plain classes code placed
  rcases accepted with decimal | separator
  · rw [other] at decimal
    exact Bool.false_ne_true decimal
  · have separators : lit " -" = [32,45] := by decide
    rw [separators] at separator
    simp [notSpace,notHyphen] at separator

private theorem card_long (number : CardNumber classes card) : 13 ≤ card.length := by
  have := number_length classes (@number_of_card classes [] card [] number)
  simpa using this

private theorem card_filled (number : CardNumber classes card) : card ≠ [] :=
  List.ne_nil_of_length_pos (by have := card_long number; omega)

private theorem digit_clean {code : Nat} (decimal : classes.isDecimal code = true) :
    Clean redactionPlaceholder [code] := by
  intro other member placed
  rw [List.mem_singleton] at member
  rw [member] at placed
  rw [(placeholder_plain classes code placed).1] at decimal
  exact Bool.false_ne_true decimal

private theorem occurs_shape {left right : Str} :
    card <+: (left ++ (card ++ right)).drop left.length := by
  rw [List.drop_left]
  exact List.prefix_append _ _

private theorem shape_occurs {text : Str} {i : Nat} (inside : i ≤ text.length)
    (occurs : card <+: text.drop i) :
    ∃ left right, text = left ++ (card ++ right) ∧ left.length = i := by
  obtain ⟨right,whole⟩ := occurs
  refine ⟨text.take i,right,?_,by rw [List.length_take]; omega⟩
  rw [whole,List.take_append_drop]

private theorem apart_shape {left right : Str}
    (apart : Apart classes card (left ++ (card ++ right))) :
    (0 < left.length → digitAt classes (left ++ (card ++ right)) (left.length - 1) = false) ∧
      digitAt classes (left ++ (card ++ right)) (left.length + card.length) = false :=
  apart left.length (by rw [List.length_append]; omega) occurs_shape

private theorem apart_suffix {front text : Str} (apart : Apart classes card (front ++ text)) :
    Apart classes card text := by
  intro i inside occurs
  have there : card <+: (front ++ text).drop (front.length + i) := by
    rwa [List.drop_length_add_append]
  obtain ⟨before,after⟩ := apart (front.length + i) (by rw [List.length_append]; omega) there
  have same (k : Nat) : digitAt classes (front ++ text) (front.length + k) =
    digitAt classes text k := by
    rw [digitAt,digitAt,List.getElem?_append_right (by omega),Nat.add_sub_cancel_left]
  refine ⟨fun positive => ?_,?_⟩
  · rw [← same,show front.length + (i - 1) = front.length + i - 1 by omega]
    exact before (by omega)
  · rw [← same,← Nat.add_assoc]
    exact after

private theorem apart_shorter {text more : Str} (apart : Apart classes card (text ++ more)) :
    Apart classes card text := by
  intro i inside occurs
  have there : card <+: (text ++ more).drop i := by
    rw [List.drop_append_of_le_length inside]
    exact occurs.trans (List.prefix_append _ _)
  obtain ⟨before,after⟩ := apart i (by rw [List.length_append]; omega) there
  have same (k : Nat) (other : digitAt classes (text ++ more) k = false) : digitAt classes text k =
    false := by
    by_cases within : k < text.length
    · rw [digitAt,List.getElem?_append_left within] at other
      exact other
    · rw [digitAt,List.getElem?_eq_none (by omega)]
      rfl
  exact ⟨fun positive => same _ (before positive),same _ after⟩

private theorem clean_append {front back : Str} (first : Clean redactionPlaceholder front)
    (second : Clean redactionPlaceholder back) : Clean redactionPlaceholder (front ++ back) :=
      fun code member =>
  (List.mem_append.mp member).elim (first code) (second code)

private theorem apart_rewrites (number : CardNumber classes card) {text text' : Str}
    (apart : Apart classes card text) (rewrites : Rewrites redactionPlaceholder text text') :
    Apart classes card text' := by
  intro i inside occurs
  obtain ⟨left,right,whole,rfl⟩ := shape_occurs inside occurs
  have cleanCard := card_clean number
  refine ⟨fun positive => ?_,?_⟩
  · by_contra digit
    rcases List.eq_nil_or_concat left with empty | ⟨front,code,last⟩
    · rw [empty] at positive
      exact absurd positive (Nat.lt_irrefl 0)
    · rw [List.concat_eq_append] at last
      subst last
      have decimal : classes.isDecimal code = true := by
        rw [digitAt,whole,List.length_append,List.length_singleton,Nat.add_sub_cancel,
          List.append_assoc,List.getElem?_append_right (Nat.le_refl _),Nat.sub_self] at digit
        simpa using digit
      have shape : text' = front ++ (([code] ++ card) ++ right) := by simpa using whole
      obtain ⟨front',right',origin,_,_⟩ :=
        rewrites_window placeholder_filled rewrites front ([code] ++ card) right shape
        (List.append_ne_nil_of_left_ne_nil (List.cons_ne_nil _ _) _)
        (clean_append (digit_clean decimal) cleanCard)
      have split : text = (front' ++ [code]) ++ (card ++ right') := by simpa using origin
      rw [split] at apart
      have before := (apart_shape apart).1 (by simp)
      rw [digitAt,List.length_append,List.length_singleton,Nat.add_sub_cancel,List.append_assoc,
        List.getElem?_append_right (Nat.le_refl _),Nat.sub_self] at before
      exact Bool.false_ne_true (before.symm.trans decimal)
  · by_contra digit
    cases right with
    | nil =>
      rw [digitAt,whole,List.getElem?_eq_none (by simp)] at digit
      exact digit rfl
    | cons code right =>
      have there : (left ++ (card ++ code::right))[left.length + card.length]? = some code := by
        rw [← List.append_assoc,List.getElem?_append_right (by rw [List.length_append]),
          List.length_append,Nat.sub_self]
        rfl
      have decimal : classes.isDecimal code = true := by
        rw [digitAt,whole,there] at digit
        simpa using digit
      have shape : text' = left ++ ((card ++ [code]) ++ right) := by simpa using whole
      obtain ⟨left',right',origin,_,_⟩ := rewrites_window placeholder_filled rewrites left (card ++
        [code]) right shape
        (List.append_ne_nil_of_right_ne_nil _ (List.cons_ne_nil _ _))
        (clean_append cleanCard (digit_clean decimal))
      have split : text = left' ++ (card ++ code::right') := by simpa using origin
      rw [split] at apart
      have after := (apart_shape apart).2
      rw [digitAt,← List.append_assoc,List.getElem?_append_right (by rw [List.length_append]),
        List.length_append,Nat.sub_self] at after
      exact Bool.false_ne_true (after.symm.trans decimal)

private theorem validated_card {text : Str} {i e : Nat} (number : Number classes text i e)
    (behind : 0 < i → digitAt classes text (i - 1) = false) (ahead : digitAt classes text e = false)
    (valid : luhnValid classes (slice text i e) = true) :
    ∃ stop accepted, (ends (creditCard classes).expression text i).head? = some stop ∧
      validatedEnd (creditCard classes) text i stop = some accepted ∧ e ≤ accepted := by
  have member : e ∈ ends (creditCardExpression classes) text i :=
    (mem_card_iff classes).mpr ⟨behind,number,ahead⟩
  obtain ⟨stop,head,least⟩ := card_greedy classes member
  have last := BackOff.validatedEnd_last head
  have whole := BackOff.matchesWhole_iff.mpr ⟨behind,number⟩
  cases found : validatedEnd (creditCard classes) text i stop with
  | none =>
    rw [found] at last
    exact absurd ⟨whole,valid⟩ (last e (number_length classes number) least)
  | some accepted =>
    rw [found] at last
    exact ⟨stop,accepted,head,found,last.2.2.2 e (number_length classes number) least ⟨whole,valid⟩⟩

private theorem validated_number {text : Str} {i stop accepted : Nat} (inside : i ≤ text.length)
    (head : (ends (creditCard classes).expression text i).head? = some stop)
    (found : validatedEnd (creditCard classes) text i stop = some accepted) :
    Number classes text i accepted := by
  obtain ⟨_,_,member⟩ := validatedEnd_mem inside head found
  obtain ⟨_,number,_⟩ := (mem_card_iff classes).mp member
  exact ((number_take classes).mp number).1

private theorem replaced_card {text stretch : Str}
    (replaced : Replaced (creditCard classes) text stretch) :
    13 ≤ stretch.countP classes.isDecimal := by
  obtain ⟨start,stop,accepted,inside,head,found,rfl⟩ := replaced
  have bound := validatedEnd_bound inside head found
  exact (number_count classes (validated_number inside head found) bound.2).1

private theorem replaced_plain {pattern : Pattern} (plain : pattern.validate = none)
    {text stretch : Str} (replaced : Replaced pattern text stretch) :
    ∃ start stop, start ≤ text.length ∧ stop ∈ ends pattern.expression text start ∧
    stretch = slice text start stop := by
  obtain ⟨start,stop,accepted,inside,head,found,rfl⟩ := replaced
  rw [validatedEnd,plain] at found
  simp only at found
  split_ifs at found
  cases found
  exact ⟨start,stop,inside,List.mem_of_mem_head? head,rfl⟩

private theorem counts_digits (count : Nat) :
    Counts classes.isDecimal (digits classes count) count := by
  have each : Counts classes.isDecimal (digits classes count) (count * 1) :=
    .rep count 0 (.char (fun _ decimal => decimal))
  rwa [Nat.mul_one] at each

private theorem replaced_phone {text stretch : Str}
    (replaced : Replaced (phone classes) text stretch) :
    10 ≤ stretch.countP classes.isDecimal := by
  obtain ⟨start,stop,inside,member,rfl⟩ := replaced_plain rfl replaced
  have three := @counts_digits classes 3
  have area : Counts classes.isDecimal (phoneArea classes) (0 + (3 + 0)) :=
    .seq (.any _) (.seq three (.any _))
  have tail : Counts classes.isDecimal (.sequence [maybe (oneOf " .-"),digits classes 4]) (0 + 4) :=
    .seq (.any _) (counts_digits 4)
  have back : Counts classes.isDecimal (.sequence [digits classes 3,maybe (oneOf " .-"),
    digits classes 4]) (3 + 4) := .seq three tail
  have rest : Counts classes.isDecimal (phoneRest classes) (0 + 7) := .seq (.any _) back
  have code : Counts classes.isDecimal (.alt (phoneArea classes) (digits classes 3)) 3 :=
    .alt area three
  have plain : Counts classes.isDecimal (.seq (.alt (phoneArea classes) (digits classes 3))
    (phoneRest classes)) (3 + 7) := .seq code rest
  have prefixed : Counts classes.isDecimal (.sequence [.literal (lit "+1"),maybe (oneOf " .-"),
      .alt (phoneArea classes) (digits classes 3),phoneRest classes]) (0 + (0 + 10)) :=
        .seq (.any _) (.seq (.any _) plain)
  have enclosed : Counts classes.isDecimal (.sequence [phoneArea classes,phoneRest classes]) (3 +
    7) := .seq area rest
  have separated : Counts classes.isDecimal (.sequence [digits classes 3,oneOf " .-",
    digits classes 3,maybe (oneOf " .-"),digits classes 4])
      (3 + (0 + 7)) := .seq three (.seq (.any _) back)
  have shapes : Counts classes.isDecimal (.seq (.alt _ (.alt _ _)) (.notAhead (digit classes)))
    (10 + 0) :=
    .seq (.alt prefixed (.alt enclosed separated)) (.any _)
  have counts : Counts classes.isDecimal (phoneExpression classes) (0 + 10) := .seq (.any _) shapes
  exact counts_ends counts inside stop member

/-- Neither a digit nor a separator. -/
private def other (classes : Classes) (code : Nat) : Bool :=
  !classes.isDecimal code && !(lit " -").contains code

private theorem replaced_key {text stretch : Str} (replaced : Replaced apiKey text stretch) :
    1 ≤ stretch.countP (other classes) := by
  obtain ⟨start,stop,inside,member,rfl⟩ := replaced_plain rfl replaced
  have letter (code : Nat) (ascii : code < 128) (notDigit : isAsciiDigit code = false)
      (apart : (lit " -").contains code = false) :
      Counts (other classes) (.char (· == code)) 1 := by
    refine .char (fun found equal => ?_)
    obtain rfl := beq_iff_eq.mp equal
    rw [other,classes.isDecimal_ascii found ascii,notDigit,apart]
    rfl
  have s := letter 115 (by decide) (by decide) (by decide)
  have a := letter 65 (by decide) (by decide) (by decide)
  have counts : Counts (other classes) apiKeyExpression 1 :=
    .seq (.any _)
      (.seq (.alt (.seq (.seq s (.any _)) (.any _)) (.alt (.seq (.seq s (.any _)) (.any _))
      (.seq (.seq a (.any _)) (.any _)))) (.any _))
  exact counts_ends counts inside stop member

private theorem slice_middle (left window right : Str) :
    slice (left ++ (window ++ right)) left.length (left.length + window.length) = window := by
  rw [slice,← List.append_assoc,← List.length_append,List.take_left,List.drop_left]

private theorem countP_infix {stretch text : Str} (inside : stretch <:+: text)
    (counted : Nat → Bool) : stretch.countP counted ≤ text.countP counted :=
  inside.sublist.countP_le

private theorem number_tail {left right : Str} (number : CardNumber classes card)
    (longer : Number classes (left ++ (card ++ right)) left.length (left ++
      (card ++ right)).length) :
    right.countP classes.isDecimal ≤ 6 ∧ right.countP (other classes) = 0 := by
  constructor
  · have high := (number_count classes longer (Nat.le_refl _)).2
    rw [slice,List.take_length,List.drop_left,List.countP_append] at high
    have low := number.2.1
    omega
  · rw [List.countP_eq_zero]
    intro code member
    obtain ⟨k,bound,same⟩ := List.mem_iff_getElem.mp member
    have covered := number_covered classes longer (left.length + (card.length + k)) (by omega)
      (by simp only [List.length_append]; omega)
    obtain ⟨code',found,accepted⟩ := covered
    rw [List.getElem?_append_right (by omega),Nat.add_sub_cancel_left,
      List.getElem?_append_right (by omega),
      Nat.add_sub_cancel_left,List.getElem?_eq_getElem bound,same] at found
    cases found
    rw [other]
    rcases accepted with decimal | separator
    · simp [decimal]
    · rw [separator]
      simp

/-- A card that is left after redaction is the beginning of a longer number at the protected end. -/
theorem redact_card {text left right : Str} {protectTail : Bool} (number : CardNumber classes card)
    (valid : luhnValid classes card = true) (apart : Apart classes card text)
    (shape : (redact redactionPlaceholder protectTail (defaultPatterns classes) text).1 = left ++
      (card ++ right)) :
    protectTail = true ∧ Number classes (left ++ (card ++ right)) left.length (left ++
      (card ++ right)).length := by
  have clean := card_clean number
  have filled := card_filled number
  have advancing := default_advancing classes
  rw [defaultPatterns] at shape advancing
  have cut := redact_rewrites placeholder_filled protectTail [email classes,ssn classes]
    (fun pattern member => advancing pattern (List.mem_append_left [creditCard classes,
      phone classes,apiKey] member)) text
  rw [redact_cons,redact_cons,redact_nil] at cut
  rw [redact_cons,redact_cons,redact_cons,redact_cons,redact_cons,redact_nil] at shape
  generalize (pass (ssn classes) redactionPlaceholder
    (pass (email classes) redactionPlaceholder text protectTail).1 protectTail).1 =
      text2 at shape cut
  have advance (pattern : Pattern) (member : pattern ∈ [creditCard classes,phone classes,apiKey]) :=
    advancing pattern (List.mem_cons_of_mem _ (List.mem_cons_of_mem _ member))
  obtain ⟨left4,right4,whole4,_,after4,_⟩ := pass_window placeholder_filled
    (advance apiKey (List.mem_cons_of_mem _ (List.mem_cons_of_mem _ List.mem_cons_self)))
      filled clean shape
  obtain ⟨left3,right3,whole3,_,after3,_⟩ := pass_window placeholder_filled
    (advance (phone classes) (List.mem_cons_of_mem _ List.mem_cons_self)) filled clean whole4
  obtain ⟨left2,right2,whole2,_,after2,spared⟩ := pass_window placeholder_filled
    (advance (creditCard classes) List.mem_cons_self) filled clean whole3
  have apart2 := apart_rewrites number apart cut
  rw [whole2] at apart2
  have around := apart_shape apart2
  have here := @number_of_card classes left2 card right2 number
  obtain ⟨stop,accepted,head,found,_⟩ := validated_card here around.1 around.2
    (by rw [slice_middle]; exact valid)
  rw [whole2] at spared
  obtain ⟨protect,reach⟩ := spared stop accepted head found
  have longer := validated_number (by rw [List.length_append]; omega) head found
  rw [reach] at longer
  have few := number_tail number longer
  -- nothing that the last three passes replace fits into what follows the card
  have same2 : right3 = right2 := spans_same after2 (fun stretch inside replaced => by
    have := replaced_card replaced
    have := countP_infix inside classes.isDecimal
    omega)
  have same3 : right4 = right2 := (spans_same after3 (fun stretch inside replaced => by
    have := replaced_phone replaced
    have := countP_infix inside classes.isDecimal
    rw [same2] at this
    omega)).trans same2
  have same4 : right = right2 := (spans_same after4 (fun stretch inside replaced => by
    have := @replaced_key classes _ _ replaced
    have := countP_infix inside (other classes)
    rw [same3] at this
    omega)).trans same3
  refine ⟨protect,?_⟩
  rw [List.length_append] at longer ⊢
  rw [same4]
  have behind (front : Str) (k : Nat) : (front ++ (card ++ right2))[front.length + k]? =
    (card ++ right2)[k]? := by
    rw [List.getElem?_append_right (by omega),Nat.add_sub_cancel_left]
  exact number_shift classes (fun k _ => (behind left k).trans (behind left2 k).symm) longer

private theorem prefix_of_append {part text more : Str} (inside : part <+: text ++ more)
    (short : part.length ≤ text.length) : part <+: text :=
  List.prefix_of_prefix_length_le inside (List.prefix_append text more) short

/-- Where a card runs past the end of the text, a match begins, or the engine looks past the end
and finds no match later. -/
private theorem crossing_open {text more : Str} {j : Nat}
    (number : Number classes (text ++ more) j (j + card.length))
    (behind : 0 < j → digitAt classes text (j - 1) = false)
    (ahead : digitAt classes (text ++ more) (j + card.length) = false) (inside : j < text.length)
    (beyond : text.length < j + card.length) :
    ends (creditCardExpression classes) text j ≠ [] ∨
    touches (creditCardExpression classes) text j = true ∧
      ∀ i, j < i → i ≤ text.length → ends (creditCardExpression classes) text i = [] := by
  by_cases matched : ends (creditCardExpression classes) text j = []
  · refine Or.inr ⟨?_,fun i after low => ?_⟩
    · by_contra touched
      have same :=
        (ends_append _ text more j (Nat.le_of_lt inside) (Bool.not_eq_true _ ▸ touched)).1
      have behind' : 0 < j → digitAt classes (text ++ more) (j - 1) = false := fun positive => by
        rw [digitAt,List.getElem?_append_left (by omega)]
        exact behind positive
      have member := (mem_card_iff classes).mpr ⟨behind',number,ahead⟩
      rw [same,matched] at member
      cases member
    · by_contra found
      obtain ⟨e,member⟩ := List.exists_mem_of_ne_nil _ found
      have bound := ends_bound _ text i low e member
      obtain ⟨_,later,_⟩ := (mem_card_iff classes).mp member
      have digits := (number_count classes later bound.2).1
      refine card_cut classes number (Nat.le_of_lt inside) beyond behind ?_ matched
      rw [slice_append (Nat.le_of_lt after) low (Nat.le_refl _),
        slice_append (by omega : i ≤ e) bound.2 (Nat.le_refl _),
        List.countP_append,List.countP_append]
      omega
  · exact Or.inl matched

private theorem holdback_card {text more : Str} (number : CardNumber classes card)
    (apart : Apart classes card (text ++ more))
    (longer : ∀ left right, text = left ++ (card ++ right) →
      Number classes text left.length text.length)
    (visible : Visible classes card text more) :
    Sealed (· = card) (text.take (holdbackIndex (defaultPatterns classes) text))
      (text.drop (holdbackIndex (defaultPatterns classes) text) ++ more) := by
  intro before after window tail split filled shape found
  subst found
  have whole : text ++ more = before ++ (window ++ tail) := by
    rw [← shape,← List.append_assoc,← List.append_assoc,← split,List.take_append_drop]
  have early : before.length < holdbackIndex (defaultPatterns classes) text := by
    have size := congrArg List.length split
    have some_ := List.length_pos_of_ne_nil filled
    rw [List.length_take,List.length_append] at size
    omega
  have inside := holdbackIndex_le_length (defaultPatterns classes) text
  have occurs : window <+: (text ++ more).drop before.length := whole ▸ occurs_shape
  obtain ⟨behind,ahead⟩ := apart before.length (by rw [List.length_append]; omega) occurs
  have behind' : 0 < before.length → digitAt classes text (before.length - 1) = false :=
    fun positive => by
    have far := behind positive
    rwa [digitAt,List.getElem?_append_left (by omega)] at far
  have here : Number classes (text ++ more) before.length (before.length + window.length) :=
    whole ▸ number_of_card classes number
  have finished (short : before.length + window.length ≤ text.length) :
      (ends (creditCardExpression classes) text before.length).head? = some text.length := by
    rw [List.drop_append_of_le_length (by omega)] at occurs
    have place := prefix_of_append occurs (by rw [List.length_drop]; omega)
    obtain ⟨left,right,same,size⟩ := shape_occurs (by omega) place
    have reaching := size ▸ longer left right same
    have member : text.length ∈ ends (creditCardExpression classes) text before.length := by
      refine (mem_card_iff classes).mpr ⟨behind',reaching,?_⟩
      rw [digitAt,List.getElem?_eq_none (Nat.le_refl _)]
      rfl
    obtain ⟨first,head,least⟩ := card_greedy classes member
    have bound := ends_bound _ text before.length (by omega) first (List.mem_of_mem_head? head)
    rw [head,show first = text.length by omega]
  have open_ : ends (creditCardExpression classes) text before.length ≠ [] ∨
      touches (creditCardExpression classes) text before.length = true ∧
        ∀ i, before.length < i → i ≤ text.length →
        ends (creditCardExpression classes) text i = [] := by
    by_cases short : before.length + window.length ≤ text.length
    · exact Or.inl (List.ne_nil_of_mem (List.mem_of_mem_head? (finished short)))
    · exact crossing_open here behind' ahead (by omega) (by omega)
  obtain ⟨hit,member,unfinished,low⟩ := finditer_unfinished (creditCardExpression classes) text
    (Nat.zero_lt_succ 12) before.length
    (by omega) open_ (by
      intro hit member complete low
      obtain ⟨first,head⟩ := finditer_complete _ text hit member complete
      have bound := ends_bound _ text hit.start first hit.stop (List.mem_of_mem_head? head)
      by_contra covers
      have shown := visible before.length (by omega) occurs hit member
      by_cases short : before.length + window.length ≤ text.length
      · by_cases same : hit.start = before.length
        · rw [same,finished short] at head
          have := Option.some.inj head
          omega
        · exact shown ⟨complete,low,by omega,by omega,Or.inl (by omega)⟩
      · exact shown ⟨complete,low,by omega,by omega,Or.inr (by omega)⟩)
  have listed : creditCard classes ∈ defaultPatterns classes :=
    List.mem_cons_of_mem _ (List.mem_cons_of_mem _ List.mem_cons_self)
  have bound := holdbackIndex_le (defaultPatterns classes) text listed member unfinished
  omega

/-- What holds between two feeds: the card stands apart in what is held and still to come, none
begins in what was emitted, and while a run is suppressed nothing is held. -/
structure Guarded (classes : Classes) (card emitted : Str) (redactor : StreamRedactor)
    (more : Str) : Prop where
  apart : Apart classes card (redactor.buffer ++ more)
  sealed : Sealed (· = card) emitted (redactor.buffer ++ more)
  closed : redactor.suppressing = true → redactor.buffer = [] ∧
    ∀ rest, Sealed (· = card) emitted rest

private theorem guarded_absorbed (number : CardNumber classes card)
    (valid : luhnValid classes card = true) {emitted buffer rest more out : Str}
    {next : StreamRedactor} (apart : Apart classes card (buffer ++ (rest ++ more)))
    (sealed : Sealed (· = card) emitted (buffer ++ (rest ++ more)))
    (visible : Visible classes card (settled (.default classes) buffer rest) more)
    (absorbed : Absorbed (.default classes) buffer rest next out) :
    Guarded classes card (emitted ++ out) next more := by
  have clean (window : Str) (same : window = card) : Clean redactionPlaceholder window :=
    same ▸ card_clean number
  have rewrites : Rewrites redactionPlaceholder (buffer ++ (rest ++ more))
    (settled (.default classes) buffer rest ++ more) := by
    rw [← List.append_assoc]
    exact rewrites_append (redact_rewrites placeholder_filled true _ (default_advancing classes) _)
      .refl
  have apart' := apart_rewrites number apart rewrites
  have before := sealed_rewrites placeholder_filled clean sealed rewrites
  rw [← List.append_assoc] at apart
  have here := holdback_card number apart'
    (fun left right shape => by
      have longer := (redact_card number valid (apart_shorter apart) shape).2
      rwa [← shape] at longer) visible
  have whole :=
    List.take_append_drop (holdbackIndex (defaultPatterns classes)
      (settled (.default classes) buffer rest))
    (settled (.default classes) buffer rest)
  rw [← whole,List.append_assoc] at apart' before
  have split := sealed_append before here
  have rest_ := apart_suffix apart'
  cases absorbed with
  | split held running _ =>
    refine ⟨?_,?_,fun suppressing => absurd (running.symm.trans suppressing) Bool.false_ne_true⟩
    · rw [held]
      exact rest_
    · rw [held]
      exact split
  | overflow empty _ _ =>
    have closed (rest' : Str) := sealed_append (sealed_closed placeholder_filled clean split rest')
      (sealed_placeholder (fun window (same : window = card) => ⟨same ▸ card_filled number,
        clean window same⟩) rest')
    rw [← List.append_assoc]
    refine ⟨?_,?_,fun _ => ⟨empty,closed⟩⟩
    · rw [empty]
      exact apart_suffix rest_
    · rw [empty]
      exact closed _

private theorem guarded_feed (number : CardNumber classes card)
    (valid : luhnValid classes card = true) {emitted more : Str} {self : StreamRedactor}
    {chunk : Str} (guarded : Guarded classes card emitted self (chunk ++ more))
    (visible : remainder (.default classes) self chunk ≠ [] →
      Visible classes card (settled (.default classes) self.buffer
        (remainder (.default classes) self chunk)) more) :
    Guarded classes card (emitted ++ (self.feed (.default classes) chunk).2)
      (self.feed (.default classes) chunk).1 more := by
  obtain ⟨front,split⟩ := remainder_suffix (.default classes) self chunk
  have left : Apart classes card (self.buffer ++
    (remainder (.default classes) self chunk ++ more)) ∧
      Sealed (· = card) emitted (self.buffer ++
        (remainder (.default classes) self chunk ++ more)) := by
    cases suppressing : self.suppressing with
    | false =>
      rw [remainder_running _ self suppressing chunk]
      exact ⟨guarded.apart,guarded.sealed⟩
    | true =>
      obtain ⟨empty,closed⟩ := guarded.closed suppressing
      have apart := guarded.apart
      rw [← split,List.append_assoc,empty,List.nil_append] at apart
      exact ⟨by rw [empty]; exact apart_suffix apart,closed _⟩
  rcases feed_cases (.default classes) self chunk with ⟨none_,out,buffer,
    suppressing⟩ | ⟨some_,absorbed⟩
  · rw [none_,List.nil_append] at left
    rw [out,List.append_nil]
    refine ⟨by rw [buffer]; exact left.1,by rw [buffer]; exact left.2,fun running => ?_⟩
    rw [buffer]
    exact guarded.closed (suppressing ▸ running)
  · exact guarded_absorbed number valid left.1 left.2 (visible some_) absorbed

private theorem guarded_feedAll (number : CardNumber classes card)
    (valid : luhnValid classes card = true) {emitted : Str} {self : StreamRedactor}
    (chunks : List Str) (guarded : Guarded classes card emitted self chunks.flatten)
    (visible : NeverHidden classes card self chunks) :
    Guarded classes card (emitted ++ (self.feedAll (.default classes) chunks).2)
      (self.feedAll (.default classes) chunks).1 [] := by
  induction chunks generalizing emitted self with
  | nil =>
    rw [StreamRedactor.feedAll,List.append_nil]
    exact guarded
  | cons chunk chunks ih =>
    rw [StreamRedactor.feedAll,← List.append_assoc]
    exact ih (guarded_feed number valid guarded visible.1) visible.2

private theorem guarded_flush (number : CardNumber classes card)
    (valid : luhnValid classes card = true) {emitted : Str} {self : StreamRedactor}
    (guarded : Guarded classes card emitted self []) :
    ¬ card <:+: emitted ++ (self.flush (.default classes)).2 := by
  rw [flush_out]
  intro inside
  obtain ⟨apart,before,_⟩ := guarded
  rw [List.append_nil] at apart before
  have last : Sealed (· = card) (redact redactionPlaceholder false (defaultPatterns classes)
    self.buffer).1 [] := by
    intro front after window more split _ shape found
    rw [List.append_nil] at shape
    rw [shape,found] at split
    exact Bool.false_ne_true (redact_card number valid apart split).1
  have rewrites :=
    redact_rewrites placeholder_filled false _ (default_advancing classes) self.buffer
  have kept := sealed_rewrites placeholder_filled (fun window (same : window = card) =>
    same ▸ card_clean number) before rewrites
  rw [← List.append_nil (redact _ _ _ _).1] at kept
  exact sealed_infix (sealed_append kept last) inside (card_filled number) rfl

end Shape

/-- In a run in which no card is hidden, a valid card that always stands apart is not emitted. -/
theorem visible_card_removed (chunks : List Str) (number : CardNumber classes card)
    (valid : luhnValid classes card = true) (apart : Apart classes card chunks.flatten)
    (visible : NeverHidden classes card .new chunks) :
    ¬ card <:+: StreamRedactor.new.process (.default classes) chunks := by
  have start : Guarded classes card [] .new chunks.flatten :=
    ⟨apart,sealed_nil _,fun running => absurd running Bool.false_ne_true⟩
  exact guarded_flush number valid (guarded_feedAll number valid chunks start visible)

theorem visible_card_removed_split : ¬ lit "4111 1111 1111 1111" <:+:
    StreamRedactor.new.process (.default asciiClasses) [lit "pay 4111 1111",lit " 1111 1111 now"] :=
  visible_card_removed asciiClasses _ _ (by decide +kernel) (by decide +kernel) (by decide +kernel)
    (by decide +kernel)

/-- Three order numbers hide the card behind them: it is held from its second group on, and what is
left of it at the end is no card. -/
theorem hidden_card_emitted : CardNumber asciiClasses (lit "4111 1111 1111 1111") ∧
    luhnValid asciiClasses (lit "4111 1111 1111 1111") = true ∧
    lit "4111 1111 1111 1111" <:+: lit "1001 1002 1003 4111 1111 1111 1111" ∧
    Apart asciiClasses (lit "4111 1111 1111 1111") (lit "1001 1002 1003 4111 1111 1111 1111") ∧
    lit "4111 1111 1111 1111" <:+: StreamRedactor.new.process (.default asciiClasses)
      [lit "1001 1002 1003 4111 1111 1111 1111"] := by
  decide +kernel

end QuilrMcp.Guardrail.CardSafety
