import QuilrMcp.Guardrail.Passes
import QuilrMcp.Library.Cutting

/-! Nothing is lost but what a placeholder stands for: the output is the input with as many stretches
cut out as the statistics count. -/
namespace QuilrMcp.Guardrail.Conservation
open Library.Text
open Library.Search
open Library.Cutting
open Library.Unicode (Classes isAsciiDigit)
open Patterns
open Redactor
open Passes

variable (classes : Classes)

/-- No match goes over a bracket of a placeholder, and none lies in the word between them. -/
def Unbracketed (code : Nat) : Prop := code ≠ 91 ∧ code ≠ 93

def redactedWord : Str := lit "REDACTED"

def foreign (code : Nat) : Bool := !redactedWord.contains code

theorem placeholder_shape : redactionPlaceholder = 91::(redactedWord ++ [93]) := by decide

private theorem word_unbracketed {code : Nat} (word : classes.isWord code = true) :
    Unbracketed code := by
  constructor
  · rintro rfl
    rw [classes.isWord_ascii 91 (by decide)] at word
    contradiction
  · rintro rfl
    rw [classes.isWord_ascii 93 (by decide)] at word
    contradiction

private theorem among_unbracketed (accept : Nat → Bool) (codes : Str)
    (outside : 91 ∉ codes ∧ 93 ∉ codes) (words : ∀ code, accept code = true →
      classes.isWord code = true ∨ code ∈ codes) :
    ∀ code, accept code = true → Unbracketed code := by
  intro code accepted
  rcases words code accepted with word | listed
  · exact word_unbracketed classes word
  · exact ⟨fun same => outside.1 (same ▸ listed),fun same => outside.2 (same ▸ listed)⟩

instance (code : Nat) : Decidable (Unbracketed code) :=
  inferInstanceAs (Decidable (code ≠ 91 ∧ code ≠ 93))

private theorem decimal_unbracketed : Consumes Unbracketed (digit classes) :=
  among_unbracketed classes classes.isDecimal [] (by decide) (fun code accepted =>
    Or.inl (classes.isWord_decimal code accepted))

private theorem word_continues {code : Nat} (word : classes.isWord code = true) :
    continues classes code = true := by
  rw [continues,word,Bool.true_or]

private theorem sign_continues {code : Nat} (sign : code ∈ lit ".%+@-") :
    continues classes code = true := by
  rw [continues,List.contains_eq_mem,decide_eq_true sign,Bool.or_true]

private theorem among_continues (codes : Str) (each : ∀ code ∈ codes, code ∈ lit ".%+@-")
    (code : Nat) (known : classes.isWord code = true ∨ code ∈ codes) :
    continues classes code = true := by
  rcases known with word | sign
  · exact word_continues classes word
  · exact sign_continues classes (each code sign)

/-- An e-mail address is one run of `OVERLONG_RUN` characters, finished or not. -/
theorem email_continues :
    Consumes (fun code => continues classes code = true) (emailExpression classes) := by
  have localPart (code : Nat) (accepted : localPart classes code = true) : continues classes code =
    true :=
    among_continues classes (lit ".%+-") (by decide) code
      (by simpa [Patterns.localPart] using accepted)
  have domainPart (code : Nat) (accepted : domainPart classes code = true) : continues classes
    code = true :=
    among_continues classes (lit ".-") (by decide) code
      (by simpa [Patterns.domainPart] using accepted)
  have letter (code : Nat) (accepted : letter classes code = true) : continues classes code =
    true := by
    simp only [Patterns.letter,Bool.and_eq_true] at accepted
    exact word_continues classes accepted.1.1
  have sign (codes : Str) (each : ∀ code ∈ codes, code ∈ lit ".%+@-") (code : Nat)
    (listed : code ∈ codes) :
      continues classes code = true := sign_continues classes (each code listed)
  exact ⟨trivial,localPart,consumes_literal _ (by decide) (sign (lit "@") (by decide)),domainPart,
    consumes_literal _ (by decide) (sign (lit ".") (by decide)),letter⟩

private theorem continues_unbracketed (code : Nat) (known : continues classes code = true) :
    Unbracketed code :=
  among_unbracketed classes (fun code => continues classes code) (lit ".%+@-") (by decide)
    (fun code known => by simpa [continues] using known) code known

private theorem email_consumes : Consumes Unbracketed (emailExpression classes) :=
  consumes_mono (continues_unbracketed classes) _ (email_continues classes)

private theorem ssn_consumes : Consumes Unbracketed (ssnExpression classes) := by
  have digits (count : Nat) : Consumes Unbracketed (digits classes count) :=
    decimal_unbracketed classes
  exact ⟨⟨consumes_literal _ (by decide) (by decide),consumes_literal _ (by decide) (by decide),
      consumes_literal _ (by decide) (by decide),digits 2⟩,
    digits 3,consumes_literal _ (by decide) (by decide),consumes_literal _ (by decide) (by decide),
    digits 2,
    consumes_literal _ (by decide) (by decide),consumes_literal _ (by decide) (by decide),digits 4⟩

private theorem oneOf_unbracketed (codes : String) (each : ∀ code ∈ lit codes, Unbracketed code) :
    Consumes Unbracketed (oneOf codes) := fun code listed => each code (by simpa using listed)

private theorem card_consumes : Consumes Unbracketed (creditCardExpression classes) := by
  have digit := decimal_unbracketed classes
  have separator := oneOf_unbracketed " -" (by decide)
  exact ⟨trivial,⟨digit,separator⟩,digit,digit⟩

private theorem phone_consumes : Consumes Unbracketed (phoneExpression classes) := by
  have digits (count : Nat) : Consumes Unbracketed (digits classes count) :=
    decimal_unbracketed classes
  have separator := oneOf_unbracketed " .-" (by decide)
  have area : Consumes Unbracketed (phoneArea classes) :=
    ⟨consumes_literal _ (by decide) (by decide),digits 3,consumes_literal _ (by decide) (by decide)⟩
  have rest : Consumes Unbracketed (phoneRest classes) := ⟨separator,digits 3,separator,digits 4⟩
  exact ⟨trivial,⟨⟨consumes_literal _ (by decide) (by decide),separator,⟨area,digits 3⟩,
    rest⟩,⟨area,rest⟩,digits 3,separator,digits 3,separator,digits 4⟩,decimal_unbracketed classes⟩

private theorem alphanumeric_word (code : Nat) (accepted : alphanumeric code = true) :
    classes.isWord code = true := by
  have small : code < 128 := by
    simp only [alphanumeric,isAsciiDigit,Library.Unicode.isAsciiLetter,Bool.or_eq_true,
      Bool.and_eq_true,decide_eq_true_eq] at accepted
    omega
  rw [classes.isWord_ascii code small,Bool.or_eq_true]
  exact Or.inl accepted

/-- An API key is one run of `OVERLONG_RUN` characters, finished or not. -/
theorem key_continues : Consumes (fun code => continues classes code = true) apiKeyExpression := by
  have plain (code : Nat) (accepted : alphanumeric code = true) : continues classes code = true :=
    word_continues classes (alphanumeric_word classes code accepted)
  have keyPart (code : Nat) (accepted : keyPart code = true) : continues classes code = true := by
    rw [Patterns.keyPart,Bool.or_eq_true] at accepted
    rcases accepted with alone | listed
    · exact plain code alone
    · rcases (by simpa [lit] using listed : code = 95 ∨ code = 45) with rfl | rfl
      · exact word_continues classes (classes.isWord_ascii 95 (by decide))
      · exact sign_continues classes (by decide)
  have upper (code : Nat) (accepted : upperOrDigit code = true) : continues classes code =
    true := by
    apply plain
    simp only [upperOrDigit,alphanumeric,isAsciiDigit,Library.Unicode.isAsciiLetter,Bool.or_eq_true,
      Bool.and_eq_true,decide_eq_true_eq] at accepted ⊢
    omega
  have named (codes : Str) (each : ∀ code ∈ codes, alphanumeric code = true ∨
    code = 45) (code : Nat) (listed : code ∈ codes) :
      continues classes code = true := by
    rcases each code listed with alone | rfl
    · exact plain code alone
    · exact sign_continues classes (by decide)
  exact ⟨trivial,⟨⟨consumes_literal _ (by decide) (named (lit "sk-ant-") (by decide)),keyPart⟩,
    ⟨consumes_literal _ (by decide) (named (lit "sk-") (by decide)),plain⟩,
    consumes_literal _ (by decide) (named (lit "AKIA") (by decide)),upper⟩,plain⟩

private theorem key_consumes (classes : Classes) : Consumes Unbracketed apiKeyExpression :=
  consumes_mono (continues_unbracketed classes) _ (key_continues classes)

private theorem default_consumes :
    ∀ pattern ∈ defaultPatterns classes, Consumes Unbracketed pattern.expression := by
  simp only [defaultPatterns,List.forall_mem_cons]
  exact ⟨email_consumes classes,ssn_consumes classes,card_consumes classes,phone_consumes classes,
    key_consumes classes,nofun⟩

private theorem decimal_foreign (code : Nat) (decimal : classes.isDecimal code = true) :
    foreign code = true := by
  have plain : ∀ code ∈ redactedWord, code ∈ redactionPlaceholder := by decide
  rw [foreign,Bool.not_eq_true',List.contains_eq_mem,decide_eq_false_iff_not]
  intro listed
  have other := (placeholder_plain classes code (plain code listed)).1
  rw [decimal] at other
  contradiction

private theorem code_foreign (code : Nat) (apart : foreign code = true) :
    Counts foreign (.char (· == code)) 1 :=
  .char (fun _ same => beq_iff_eq.mp same ▸ apart)

private theorem digit_foreign : Counts foreign (digit classes) 1 := .char (decimal_foreign classes)

private theorem default_counts :
    ∀ pattern ∈ defaultPatterns classes, ∃ n, 0 < n ∧ Counts foreign pattern.expression n := by
  have digits (count : Nat) : Counts foreign (digits classes count) (count * 1) :=
    .rep count 0 (digit_foreign classes)
  have separator : Counts foreign (oneOf " .-") 1 :=
    .char (fun code listed => (by decide : ∀ code ∈ lit " .-", foreign code = true) code
      (by simpa using listed))
  have email : Counts foreign (emailExpression classes) (0 + (0 + (1 + 0))) :=
    .seq (.any _) (.seq (.any _) (.seq (code_foreign 64 (by decide)) (.any _)))
  have ssn : Counts foreign (ssnExpression classes) (0 + (3 * 1 + 0)) :=
    .seq (.any _) (.seq (digits 3) (.any _))
  have card : Counts foreign (creditCardExpression classes) (0 + (0 + (1 + 0))) :=
    .seq (.any _) (.seq (.any _) (.seq (digit_foreign classes) (.any _)))
  have phone : Counts foreign (phoneExpression classes) (0 + (1 + 0)) :=
    .seq (.any _) (.seq (.alt (.seq (.seq (code_foreign 43 (by decide)) (.any _)) (.any _))
      (.alt (.seq (.seq (code_foreign 40 (by decide)) (.any _)) (.any _))
        (.seq (.any _) (.seq separator (.any _))))) (.any _))
  have key : Counts foreign apiKeyExpression (0 + (1 + 0)) :=
    .seq (.any _) (.seq (.alt (.seq (.seq (code_foreign 115 (by decide)) (.any _)) (.any _))
      (.alt (.seq (.seq (code_foreign 115 (by decide)) (.any _)) (.any _))
        (.seq (.seq (.any _) (.seq (code_foreign 75 (by decide)) (.any _))) (.any _)))) (.any _))
  simp only [defaultPatterns,List.forall_mem_cons]
  exact ⟨⟨_,by decide,email⟩,⟨_,by decide,ssn⟩,⟨_,by decide,card⟩,⟨_,by decide,phone⟩,
    ⟨_,by decide,key⟩,nofun⟩

variable {classes} {pattern : Pattern} {text stretch : Str} {protectTail : Bool}

private theorem mem_slice {start stop code : Nat} (member : code ∈ slice text start stop) :
    ∃ k, start ≤ k ∧ k < stop ∧ text[k]? = some code := by
  obtain ⟨i,found⟩ := List.mem_iff_getElem?.mp member
  rw [slice,List.getElem?_drop] at found
  refine ⟨start + i,by omega,?_,?_⟩
  · by_contra far
    rw [List.getElem?_take_eq_none (by omega)] at found
    contradiction
  · by_contra other
    rw [List.getElem?_take] at found
    split_ifs at found
    exact other found

theorem match_apart (member : pattern ∈ defaultPatterns classes) {start stop : Nat}
    (inside : start ≤ text.length) (ended : stop ∈ ends pattern.expression text start) :
    Apart redactionPlaceholder (slice text start stop) := by
  have covered :=
    ends_covered Unbracketed pattern.expression (default_consumes classes pattern member).within
    text start stop ended
  have clean (code : Nat) (present : code ∈ slice text start stop) : Unbracketed code := by
    obtain ⟨k,above,below,here⟩ := mem_slice present
    obtain ⟨code',here',known⟩ := covered k above below
    rw [here] at here'
    cases here'
    exact known
  obtain ⟨n,positive,counts⟩ := default_counts classes pattern member
  have least := counts_ends counts inside stop ended
  obtain ⟨code,present,apart⟩ :=
    List.countP_pos_iff.mp (show 0 < (slice text start stop).countP foreign by omega)
  rw [placeholder_shape]
  apply apart_of_brackets
  · exact List.ne_nil_of_mem present
  · exact ⟨fun opened => (clean 91 opened).1 rfl,fun closed => (clean 93 closed).2 rfl⟩
  · intro within
    have listed := within.subset present
    simp [foreign,listed] at apart

theorem replaced_apart (member : pattern ∈ defaultPatterns classes)
    (replaced : Replaced pattern text stretch) :
    Apart redactionPlaceholder stretch := by
  obtain ⟨start,stop,accepted,inside,first,found,rfl⟩ := replaced
  obtain ⟨limit,low,ended⟩ := validatedEnd_mem inside first found
  have long : start ≤ (text.take limit).length := by
    rw [List.length_take]
    omega
  have short := ends_bound pattern.expression (text.take limit) start long accepted ended
  rw [List.length_take] at short
  have same : slice text start accepted = slice (text.take limit) start accepted := by
    rw [slice,slice,List.take_take,Nat.min_eq_left (by omega)]
  rw [same]
  exact match_apart member long ended

private theorem placed_cuts {placeholder : Str} {position : Nat} {spans : List (Nat × Nat)}
    (placed : Placed pattern text protectTail position spans) :
    Cuts (Replaced pattern text) placeholder spans.length (text.drop position)
      (replaceSpans text placeholder position spans) := by
  induction placed with
  | rest _ => exact cuts_refl _
  | @span position start whole stop spans order nonempty within first valid _ _ ih =>
    have long : (slice text start stop).length = stop - start := length_slice within
    have filled : slice text start stop ≠ [] := List.ne_nil_of_length_pos (by omega)
    have later := Cuts.cut _ filled ⟨start,whole,stop,by omega,first,valid,rfl⟩ ih
    rw [replaceSpans,drop_slice order (by omega),drop_slice (Nat.le_of_lt nonempty) within,
      List.append_assoc]
    simpa using cuts_append (cuts_refl (slice text position start)) later

theorem pass_cuts {placeholder : Str} (advances : 0 < minLength pattern.expression) :
    Cuts (Replaced pattern text) placeholder (pass pattern placeholder text protectTail).2 text
      (pass pattern placeholder text protectTail).1 := by
  rw [pass_replaces]
  exact placed_cuts (passSpans_placed advances)

private theorem passes_cuts (patterns : List Pattern)
    (listed : ∀ pattern ∈ patterns, pattern ∈ defaultPatterns classes) (text : Str) :
    Cuts (Apart redactionPlaceholder) redactionPlaceholder
      (redact redactionPlaceholder protectTail patterns text).2.length text
      (redact redactionPlaceholder protectTail patterns text).1 := by
  induction patterns generalizing text with
  | nil => exact cuts_refl _
  | cons pattern patterns ih =>
    obtain ⟨member,rest⟩ := List.forall_mem_cons.mp listed
    have here := @pass_cuts pattern text protectTail redactionPlaceholder
      (default_advancing classes pattern member)
    have apart := cuts_mono (fun stretch replaced => replaced_apart member replaced) here
    rw [redact,List.length_append,List.length_replicate]
    exact cuts_trans placeholder_filled (fun _ known => known) (fun _ known =>
      known) apart (ih rest _)

theorem redact_cuts (classes : Classes) (protectTail : Bool) (text : Str) :
    Cuts (Apart redactionPlaceholder) redactionPlaceholder
    (redact redactionPlaceholder protectTail (defaultPatterns classes) text).2.length text
    (redact redactionPlaceholder protectTail (defaultPatterns classes) text).1 :=
  passes_cuts _ (fun _ member => member) text

private theorem earliestUnfinished_hit (text : Str) (hits : List Hit) (earliest : Nat) :
    earliestUnfinished text earliest hits = earliest ∨
      ∃ hit ∈ hits, hit.unfinished text ∧ earliestUnfinished text earliest hits = hit.start := by
  induction hits generalizing earliest with
  | nil => exact Or.inl rfl
  | cons hit hits ih =>
    rw [earliestUnfinished,List.foldl_cons]
    rcases ih (if hit.isPartial || hit.stop == text.length then min earliest hit.start
      else earliest) with same | ⟨other,
      member,rest⟩
    · rw [earliestUnfinished] at same
      rw [same]
      split_ifs with open_
      · rcases Nat.le_total earliest hit.start with before | after
        · exact Or.inl (Nat.min_eq_left before)
        · refine Or.inr ⟨hit,List.mem_cons_self,?_,Nat.min_eq_right after⟩
          simpa [Hit.unfinished] using open_
      · exact Or.inl rfl
    · exact Or.inr ⟨other,List.mem_cons_of_mem _ member,rest⟩

private theorem holdback_hit (text : Str) (patterns : List Pattern) (earliest : Nat) :
    patterns.foldl (fun earliest pattern => earliestUnfinished text earliest
      (finditer pattern.expression text)) earliest = earliest ∨
      ∃ pattern ∈ patterns, ∃ hit ∈ finditer pattern.expression text, hit.unfinished text ∧
        patterns.foldl (fun earliest pattern => earliestUnfinished text earliest
          (finditer pattern.expression text)) earliest = hit.start := by
  induction patterns generalizing earliest with
  | nil => exact Or.inl rfl
  | cons pattern patterns ih =>
    rw [List.foldl_cons]
    rcases ih (earliestUnfinished text earliest
      (finditer pattern.expression text)) with same | ⟨other,member,rest⟩
    · rw [same]
      rcases earliestUnfinished_hit text (finditer pattern.expression text)
        earliest with least | ⟨hit,found,open_,least⟩
      · exact Or.inl least
      · exact Or.inr ⟨pattern,List.mem_cons_self,hit,found,open_,least⟩
    · exact Or.inr ⟨other,List.mem_cons_of_mem _ member,rest⟩

/-- What is held begins at the end, or where an unfinished hit does. -/
theorem holdbackIndex_hit (patterns : List Pattern) (text : Str) :
    holdbackIndex patterns text = text.length ∨
    ∃ pattern ∈ patterns, ∃ hit ∈ finditer pattern.expression text, hit.unfinished text ∧
    holdbackIndex patterns text = hit.start :=
  holdback_hit text patterns text.length

theorem held_unbracketed (classes : Classes) (text : Str) :
    ∀ code ∈ text.drop (holdbackIndex (defaultPatterns classes) text), Unbracketed code := by
  rcases holdbackIndex_hit (defaultPatterns classes) text with none | ⟨pattern,listed,hit,
    found,open_,start⟩
  · rw [none,List.drop_length]
    exact fun _ member => absurd member List.not_mem_nil
  · rw [start]
    apply covered_drop
    exact unfinished_covered Unbracketed pattern.expression
      (default_consumes classes pattern listed) text hit found open_

/-- A held text that is too long does not touch a placeholder. -/
theorem overlong_apart (classes : Classes) (text : Str)
    (long : (Options.default classes).maxHoldback <
      (text.drop (holdbackIndex (defaultPatterns classes) text)).length) :
    Apart redactionPlaceholder (text.drop (holdbackIndex (defaultPatterns classes) text)) := by
  have clean := held_unbracketed classes text
  have ceiling : (Options.default classes).maxHoldback = 328 := rfl
  rw [placeholder_shape]
  apply apart_of_brackets
  · exact List.ne_nil_of_length_pos (by omega)
  · exact ⟨fun opened => (clean 91 opened).1 rfl,fun closed => (clean 93 closed).2 rfl⟩
  · intro within
    have short := within.length_le
    have word : redactedWord.length = 8 := by decide
    omega

private theorem sum_assign (name : Str) (counts : List (Str × Nat)) :
    ((Library.Dict.assign name ((counts.lookup name).getD 0 + 1) counts).map Prod.snd).sum =
    (counts.map Prod.snd).sum + 1 := by
  induction counts with
  | nil => rfl
  | cons count counts ih =>
    obtain ⟨key,value⟩ := count
    rw [Library.Dict.assign,List.lookup_cons]
    by_cases same : key = name
    · subst same
      simp only [beq_self_eq_true,if_true,Option.getD_some,List.map_cons,List.sum_cons]
      omega
    · have other : (name == key) = false := beq_eq_false_iff_ne.mpr (Ne.symm same)
      have other' : (key == name) = false := beq_eq_false_iff_ne.mpr same
      simp only [other,other',Bool.false_eq_true,if_false,List.map_cons,List.sum_cons,ih]
      omega

theorem total_record (stats : RedactionStats) (name : Str) :
    (stats.record name).total = stats.total + 1 :=
  sum_assign name stats.counts

theorem total_recordAll (stats : RedactionStats) (names : List Str) :
    (stats.recordAll names).total = stats.total + names.length := by
  induction names generalizing stats with
  | nil => rfl
  | cons name names ih =>
    rw [RedactionStats.recordAll,List.foldl_cons]
    have later := ih (stats.record name)
    rw [total_record] at later
    rw [List.length_cons]
    exact later.trans (by omega)

/-- Stretches of any kind cut out. -/
def Conserves : Nat → Str → Str → Prop := Cuts (fun _ => True) redactionPlaceholder

/-- What has been emitted and what is held are what came in, but for the cuts that are counted. While
text is suppressed the last cut goes on. -/
inductive Conserved (input emitted : Str) (self : StreamRedactor) : Prop
  | running : self.suppressing = false → Conserves self.stats.total input (emitted ++ self.buffer) →
      Conserved input emitted self
  | suppressing (before stretch front : Str) (n : Nat) :
      self.suppressing = true → self.buffer = [] →
      input = before ++ stretch → stretch ≠ [] → emitted = front ++ redactionPlaceholder →
      Conserves n before front →
      self.stats.total = n + 1 → Conserved input emitted self

private theorem cut_last {n : Nat} {before stretch front : Str} (filled : stretch ≠ [])
    (cuts : Conserves n before front) :
    Conserves (n + 1) (before ++ stretch) (front ++ redactionPlaceholder) := by
  have last : Cuts (fun _ => True) redactionPlaceholder 1 (stretch ++ []) (redactionPlaceholder ++
    []) := .cut stretch filled trivial .nil
  rw [List.append_nil,List.append_nil] at last
  exact cuts_append cuts last

theorem conserved_cuts {input emitted : Str} {self : StreamRedactor}
    (conserved : Conserved input emitted self) :
    Conserves self.stats.total input (emitted ++ self.buffer) := by
  cases conserved with
  | running _ cuts => exact cuts
  | suppressing before stretch front n _ empty whole filled shape cuts total =>
    rw [whole,shape,empty,List.append_nil,total]
    exact cut_last filled cuts

theorem redact_conserves {n : Nat} {input emitted text : Str} (protectTail : Bool)
    (cuts : Conserves n input (emitted ++ text)) :
    Conserves (n +
      (redact redactionPlaceholder protectTail (defaultPatterns classes) text).2.length) input
      (emitted ++ (redact redactionPlaceholder protectTail (defaultPatterns classes) text).1) := by
  have later := cuts_append (cuts_refl emitted) (redact_cuts classes protectTail text)
  rw [Nat.zero_add] at later
  exact cuts_trans placeholder_filled (fun _ known => known) (fun _ _ => trivial) cuts later

private theorem settled_conserves {input emitted : Str} {self : StreamRedactor}
    (cuts : Conserves self.stats.total input (emitted ++ self.buffer)) (text : Str) :
    Conserves (self.stats.recordAll (redact redactionPlaceholder true (defaultPatterns classes)
      (self.buffer ++ text)).2).total
      (input ++ text) (emitted ++ settled (Options.default classes) self.buffer text) := by
  have arrived : Conserves self.stats.total (input ++ text) (emitted ++ (self.buffer ++ text)) := by
    rw [← List.append_assoc]
    exact cuts_append cuts (cuts_refl text)
  rw [total_recordAll]
  exact redact_conserves true arrived

/-- Where too much is held, it is the end of what came in: no cut lies in it. -/
theorem overlong_conserves {n : Nat} {input emitted text : Str}
    (cuts : Conserves n input (emitted ++ text))
    (long : (Options.default classes).maxHoldback <
      (text.drop (holdbackIndex (defaultPatterns classes) text)).length) :
    ∃ before, input = before ++ text.drop (holdbackIndex (defaultPatterns classes) text) ∧
      Conserves n before (emitted ++ text.take (holdbackIndex (defaultPatterns classes) text)) := by
  have filled : text.drop (holdbackIndex (defaultPatterns classes) text) ≠ [] :=
    List.ne_nil_of_length_pos (Nat.lt_of_le_of_lt (Nat.zero_le _) long)
  have apart := overlong_apart classes text long
  have split := List.take_append_drop (holdbackIndex (defaultPatterns classes) text) text
  rw [← split,← List.append_nil (text.drop _),← List.append_assoc] at cuts
  obtain ⟨before,more,i,j,whole,sum,fronts,rests⟩ :=
    cuts_window placeholder_filled filled apart cuts
  obtain ⟨rfl,rfl⟩ := cuts_to_nil placeholder_filled rests
  rw [List.append_nil] at whole
  rw [Nat.add_zero] at sum
  exact ⟨before,whole,sum ▸ fronts⟩

private theorem absorb_conserved {input emitted : Str} {self : StreamRedactor}
    (running : self.suppressing = false)
    (cuts : Conserves self.stats.total input (emitted ++ self.buffer)) (text : Str) :
    Conserved (input ++ text) (emitted ++ (self.absorb (Options.default classes) text).2)
      (self.absorb (Options.default classes) text).1 := by
  have arrived := @settled_conserves classes _ _ _ cuts text
  rw [settled,show (Options.default classes).patterns = defaultPatterns classes from rfl,
    show (Options.default classes).placeholder = redactionPlaceholder from rfl] at arrived
  rw [StreamRedactor.absorb,show (Options.default classes).patterns =
    defaultPatterns classes from rfl,
    show (Options.default classes).placeholder = redactionPlaceholder from rfl]
  generalize redact redactionPlaceholder true (defaultPatterns classes) (self.buffer ++ text) =
    redacted at arrived ⊢
  simp only
  split_ifs with long
  · obtain ⟨before,whole,front⟩ := overlong_conserves arrived long
    have filled : redacted.1.drop (holdbackIndex (defaultPatterns classes) redacted.1) ≠ [] :=
      List.ne_nil_of_length_pos (Nat.lt_of_le_of_lt (Nat.zero_le _) long)
    exact .suppressing before _ _ _ rfl rfl whole filled (List.append_assoc ..).symm front
      (total_record _ overflowCounter)
  · refine .running running ?_
    rw [StreamRedactor.finish,List.append_assoc,List.take_append_drop]
    exact arrived

/-- While text is suppressed, what follows belongs to the last cut. -/
theorem suppressing_cuts {input emitted : Str} {self : StreamRedactor}
    (suppressing : self.suppressing = true) (conserved : Conserved input emitted self)
    (dropped : Str) :
    Conserves self.stats.total (input ++ dropped) (emitted ++ self.buffer) := by
  cases conserved with
  | running running _ =>
    rw [running] at suppressing
    contradiction
  | suppressing before stretch front n _ empty whole filled shape cuts total =>
    have longer : stretch ++ dropped ≠ [] := fun none => filled (List.append_eq_nil_iff.mp none).1
    rw [whole,shape,empty,List.append_assoc,List.append_nil,total]
    exact cut_last longer cuts

private theorem dropped_conserved {input emitted : Str} {self : StreamRedactor}
    (suppressing : self.suppressing = true) (conserved : Conserved input emitted self)
    (chunk : Str) :
    ∃ dropped, chunk = dropped ++ (self.dropSuppressedPrefix (Options.default classes) chunk).2 ∧
      Conserved (input ++ dropped) emitted (self.dropSuppressedPrefix
        (Options.default classes) chunk).1 ∧
      ((self.dropSuppressedPrefix (Options.default classes) chunk).2 ≠ [] →
        (self.dropSuppressedPrefix (Options.default classes) chunk).1.suppressing = false) := by
  have cuts := suppressing_cuts suppressing conserved
  rw [StreamRedactor.dropSuppressedPrefix]
  simp only
  split_ifs with all
  · refine ⟨chunk,(List.append_nil chunk).symm,?_,fun more => absurd rfl more⟩
    cases conserved with
    | running running _ =>
      rw [running] at suppressing
      contradiction
    | suppressing before stretch front n _ empty whole filled shape cuts total =>
      have longer : stretch ++ chunk ≠ [] := fun none => filled (List.append_eq_nil_iff.mp none).1
      exact .suppressing before (stretch ++ chunk) front n suppressing empty
        (by rw [whole,List.append_assoc]) longer shape cuts total
  · exact ⟨chunk.take _,(List.take_append_drop _ chunk).symm,.running rfl (cuts _),fun _ => rfl⟩

theorem feed_conserved {input emitted : Str} {self : StreamRedactor}
    (conserved : Conserved input emitted self) (chunk : Str) :
    Conserved (input ++ chunk) (emitted ++ (self.feed (Options.default classes) chunk).2)
      (self.feed (Options.default classes) chunk).1 := by
  rw [StreamRedactor.feed]
  split_ifs with none
  · rw [List.isEmpty_iff.mp none,List.append_nil,List.append_nil]
    exact conserved
  · have conserved : Conserved input emitted
        {self with stats := {self.stats with charactersIn := self.stats.charactersIn +
          chunk.length}} := by
      cases conserved with
      | running running cuts => exact .running running cuts
      | suppressing before stretch front n stopped empty whole filled shape cuts total =>
        exact .suppressing before stretch front n stopped empty whole filled shape cuts total
    simp only
    generalize counted :
      ({self with stats := {self.stats with charactersIn := self.stats.charactersIn +
        chunk.length}} :
      StreamRedactor) = next at conserved ⊢
    have mode : self.suppressing = next.suppressing := counted ▸ rfl
    rw [mode]
    by_cases suppressing : next.suppressing = true
    · obtain ⟨dropped,whole,kept,running⟩ :=
        @dropped_conserved classes _ _ _ suppressing conserved chunk
      generalize next.dropSuppressedPrefix (Options.default classes) chunk =
        rest at whole kept running ⊢
      rw [if_pos suppressing]
      split_ifs with nothing
      · rw [List.isEmpty_iff] at nothing
        rw [nothing,List.append_nil] at whole ⊢
        rwa [whole]
      · rw [List.isEmpty_iff] at nothing
        have later := @absorb_conserved classes _ _ _ (running nothing) (conserved_cuts kept) rest.2
        rwa [List.append_assoc,← whole] at later
    · rw [if_neg suppressing]
      exact absorb_conserved (Bool.eq_false_iff.mpr suppressing) (conserved_cuts conserved) chunk

theorem feedAll_conserved {input emitted : Str} {self : StreamRedactor}
    (conserved : Conserved input emitted self) (chunks : List Str) :
    Conserved (input ++ chunks.flatten) (emitted ++
      (self.feedAll (Options.default classes) chunks).2)
      (self.feedAll (Options.default classes) chunks).1 := by
  induction chunks generalizing input emitted self with
  | nil =>
    rw [StreamRedactor.feedAll,List.flatten_nil,List.append_nil,List.append_nil]
    exact conserved
  | cons chunk chunks ih =>
    rw [StreamRedactor.feedAll,List.flatten_cons,← List.append_assoc,← List.append_assoc]
    exact ih (feed_conserved conserved chunk)

theorem flush_conserves {input emitted : Str} {self : StreamRedactor}
    (conserved : Conserved input emitted self) :
    Conserves (self.flush (Options.default classes)).1.stats.total input
      (emitted ++ (self.flush (Options.default classes)).2) := by
  have cuts := @redact_conserves classes _ _ _ _ false (conserved_cuts conserved)
  rw [← total_recordAll] at cuts
  rw [StreamRedactor.flush,show (Options.default classes).patterns =
    defaultPatterns classes from rfl,
    show (Options.default classes).placeholder = redactionPlaceholder from rfl]
  generalize redact redactionPlaceholder false (defaultPatterns classes) self.buffer =
    redacted at cuts ⊢
  exact cuts

theorem start_conserved : Conserved [] [] .new := .running rfl .nil

variable (classes)

/-- The state in which a stream of chunks ends. -/
def ended (chunks : List Str) : StreamRedactor :=
  ((StreamRedactor.new.feedAll (Options.default classes) chunks).1.flush
    (Options.default classes)).1

theorem process_conserves (chunks : List Str) :
    Conserves (ended classes chunks).stats.total chunks.flatten (StreamRedactor.new.process
      (Options.default classes) chunks) :=
  flush_conserves (feedAll_conserved start_conserved chunks)

theorem redactText_plain (text : Str) (plain : 91 ∉ redactText (Options.default classes) text) :
    redactText (Options.default classes) text = text := by
  have conserves := process_conserves classes [text]
  rw [List.flatten_cons,List.flatten_nil,List.append_nil] at conserves
  apply cuts_zero conserves
  by_contra cut
  exact plain (cuts_mem conserves cut 91 (by decide))

theorem redactText_nil_iff (text : Str) :
    redactText (Options.default classes) text = [] ↔ text = [] := by
  have conserves := process_conserves classes [text]
  rw [List.flatten_cons,List.flatten_nil,List.append_nil] at conserves
  constructor
  · intro empty
    rw [redactText] at empty
    rw [empty] at conserves
    exact (cuts_to_nil placeholder_filled conserves).1
  · rintro rfl
    exact cuts_of_nil conserves

theorem flush_nil_iff (self : StreamRedactor) :
    (self.flush (Options.default classes)).2 = [] ↔ self.buffer = [] := by
  have cuts := redact_cuts classes false self.buffer
  rw [flush_out,show (Options.default classes).patterns = defaultPatterns classes from rfl,
    show (Options.default classes).placeholder = redactionPlaceholder from rfl]
  generalize redact redactionPlaceholder false (defaultPatterns classes) self.buffer =
    redacted at cuts ⊢
  constructor
  · intro empty
    rw [empty] at cuts
    exact (cuts_to_nil placeholder_filled cuts).1
  · intro empty
    rw [empty] at cuts
    exact cuts_of_nil cuts

/-- The output of a stream is its input with as many stretches cut out as the statistics count, and
with none it is the input. -/
theorem text_conserved (chunks : List Str) :
    Conserves (ended classes chunks).stats.total chunks.flatten (StreamRedactor.new.process
      (Options.default classes) chunks) ∧
      ((ended classes chunks).stats.total = 0 →
        StreamRedactor.new.process (Options.default classes) chunks = chunks.flatten) := by
  have conserves := process_conserves classes chunks
  exact ⟨conserves,fun uncut => cuts_zero conserves uncut⟩

end QuilrMcp.Guardrail.Conservation
