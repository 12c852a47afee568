import QuilrMcp.Guardrail.Conservation
import QuilrMcp.Guardrail.EventStream

/-! A payload whose strings are redacted has its texts where they were: the words that tell where they are hold nothing
that a detector could match. -/
namespace QuilrMcp.Guardrail.Leaves
open Library.Text
open Library.Search
open Library.Cutting
open Library.Json (Value truthy)
open Library.Unicode (Classes isAsciiDigit)
open Patterns
open Passes
open Redactor
open EventStream

section Idle
variable (classes : Classes)

/-- Every match of a detector has one of these. -/
def telling (code : Nat) : Bool := classes.isDecimal code || (lit "@-A").contains code

theorem decimal_telling {code : Nat} (decimal : classes.isDecimal code = true) :
    telling classes code = true := by
  rw [telling,decimal,Bool.true_or]

theorem mark_telling {code : Nat} (mark : (lit "@-A").contains code = true) :
    telling classes code = true := by
  rw [telling,mark,Bool.or_true]

theorem digits_telling (count : Nat) : Counts (telling classes) (digits classes count) count := by
  have each : Counts (telling classes) (digits classes count) (count * 1) :=
    .rep count 0 (.char (fun _ decimal => decimal_telling classes decimal))
  rwa [Nat.mul_one] at each

theorem email_telling : Counts (telling classes) (emailExpression classes) 1 := by
  have mark : Counts (telling classes) (.literal (lit "@")) 1 :=
    counts_literal List.mem_cons_self (mark_telling classes (by decide))
  exact counts_sequence (by simp) mark

theorem ssn_telling : Counts (telling classes) (ssnExpression classes) 3 :=
  counts_sequence (by simp) (digits_telling classes 3)

theorem creditCard_telling : Counts (telling classes) (creditCardExpression classes) 1 :=
  @counts_sequence _ (digit classes) _ _ (by simp)
    (.char (fun _ decimal => decimal_telling classes decimal))

theorem phone_telling : Counts (telling classes) (phoneExpression classes) 3 := by
  have three := digits_telling classes 3
  have area : Counts (telling classes) (phoneArea classes) 3 := counts_sequence (by simp) three
  have prefixed := @counts_sequence _ _ _ [.literal (lit "+1"),maybe (oneOf " .-"),
    .alt (phoneArea classes) (digits classes 3),phoneRest classes] (by simp) (Counts.alt area three)
  have enclosed := @counts_sequence _ _ _ [phoneArea classes,phoneRest classes] (by simp) area
  have separated := @counts_sequence _ _ _ [digits classes 3,oneOf " .-",digits classes 3,
    maybe (oneOf " .-"),digits classes 4]
    (by simp) three
  exact counts_sequence (by simp) (Counts.alt prefixed (Counts.alt enclosed separated))

theorem apiKey_telling : Counts (telling classes) apiKeyExpression 1 := by
  have hyphen (text : Str) (member : 45 ∈ text) : Counts (telling classes) (.literal text) 1 :=
    counts_literal member (mark_telling classes (by decide))
  have upper : Counts (telling classes) (.literal (lit "AKIA")) 1 :=
    counts_literal List.mem_cons_self (mark_telling classes (by decide))
  have long := @counts_sequence _ _ _ [.literal (lit "sk-ant-"),.many keyPart 16] (by simp)
    (hyphen (lit "sk-ant-") (by decide))
  have short := @counts_sequence _ _ _ [.literal (lit "sk-"),.many alphanumeric 20] (by simp)
    (hyphen (lit "sk-") (by decide))
  have cloud := @counts_sequence _ _ _ [.literal (lit "AKIA"),.rep (.char upperOrDigit) 16 0]
    (by simp) upper
  exact counts_sequence (by simp) (Counts.alt long (Counts.alt short cloud))

variable {classes} {text : Str} (idle : ∀ code ∈ text, telling classes code = false)
include idle

theorem replaced_telling {pattern : Pattern} {n : Nat}
    (counts : Counts (telling classes) pattern.expression (n + 1)) (stretch : Str) :
    ¬ Replaced pattern text stretch := by
  rintro ⟨start,stop,accepted,inside,first,found,-⟩
  obtain ⟨limit,low,ended⟩ := validatedEnd_mem inside first found
  have within : start ≤ (text.take limit).length := by
    rw [List.length_take]
    omega
  have found := counts_ends counts within accepted ended
  have none_ : (slice (text.take limit) start accepted).countP (telling classes) = 0 := by
    rw [List.countP_eq_zero]
    intro code member
    rw [idle code (List.mem_of_mem_take (List.mem_of_mem_take (List.mem_of_mem_drop member)))]
    exact Bool.false_ne_true
  omega

theorem replaced_never {pattern : Pattern} (listed : pattern ∈ defaultPatterns classes) :
    ∀ stretch, ¬ Replaced pattern text stretch := by
  simp only [defaultPatterns,List.mem_cons,List.not_mem_nil,or_false] at listed
  rcases listed with rfl | rfl | rfl | rfl | rfl
  · exact replaced_telling idle (email_telling classes)
  · exact replaced_telling idle (ssn_telling classes)
  · exact replaced_telling idle (creditCard_telling classes)
  · exact replaced_telling idle (phone_telling classes)
  · exact replaced_telling idle (apiKey_telling classes)

theorem redact_idle (protectTail : Bool) {patterns : List Pattern}
    (listed : ∀ pattern ∈ patterns, pattern ∈ defaultPatterns classes) :
    (redact redactionPlaceholder protectTail patterns text).1 = text := by
  induction patterns with
  | nil => rfl
  | cons pattern patterns ih =>
    obtain ⟨member,rest⟩ := List.forall_mem_cons.mp listed
    have cuts := @Conservation.pass_cuts pattern text protectTail redactionPlaceholder
      (default_advancing classes pattern member)
    rw [redact_cons,cuts_none (replaced_never idle member) cuts]
    exact ih rest

theorem feed_idle (short : text.length ≤ 328) :
    (StreamRedactor.new.feed (Options.default classes) text).2 ++
    (StreamRedactor.new.feed (Options.default classes) text).1.buffer = text := by
  have whole : settled (Options.default classes) StreamRedactor.new.buffer text = text :=
    redact_idle idle true (fun _ member => member)
  rcases feed_cases (Options.default classes) .new text with ⟨none_,out,kept,-⟩ | ⟨-,absorbed⟩
  · rw [remainder_running _ .new rfl] at none_
    rw [out,kept,none_]
    rfl
  · rw [remainder_running _ .new rfl] at absorbed
    generalize (StreamRedactor.new.feed (Options.default classes) text).1 = after,
      (StreamRedactor.new.feed (Options.default classes) text).2 = emitted at absorbed ⊢
    cases absorbed with
    | split held _ _ =>
      rw [held,whole]
      exact List.take_append_drop _ text
    | overflow _ _ long =>
      rw [whole,List.length_drop] at long
      have ceiling : (Options.default classes).maxHoldback = 328 := rfl
      omega

/-- A text that is not too long to be held and in which nothing can be found is left as it is. -/
theorem redactText_idle (short : text.length ≤ 328) :
    redactText (Options.default classes) text = text := by
  have fed := feed_idle idle short
  have held : ∀ code ∈ (StreamRedactor.new.feed (Options.default classes) text).1.buffer,
    telling classes code = false :=
    fun code member => idle code (fed ▸ List.mem_append_right _ member)
  rw [redactText,StreamRedactor.process,flush_out,show (Options.default classes).patterns =
    defaultPatterns classes from rfl,
    show (Options.default classes).placeholder = redactionPlaceholder from rfl]
  simp only [StreamRedactor.feedAll,List.append_nil]
  rw [redact_idle held false (fun _ member => member),fed]

end Idle

/-- ASCII without a digit, a mark of the detectors or a bracket, and short. -/
def isPlainWord (word : Str) : Bool :=
  word.all (fun code => decide (code < 128) && !isAsciiDigit code && !(lit "@-A").contains code &&
    code != 91) &&
    decide (word.length ≤ 328)

section Words
variable (language : Language)

theorem redactText_word {word : Str} (known : isPlainWord word = true) (text : Str) :
    redactText language.options text = word ↔ text = word := by
  rw [isPlainWord,Bool.and_eq_true,decide_eq_true_iff,List.all_eq_true] at known
  obtain ⟨codes,short⟩ := known
  have plain (code : Nat) (member : code ∈ word) : telling language.classes code = false ∧
    code ≠ 91 := by
    have known := codes code member
    simp only [Bool.and_eq_true,decide_eq_true_iff,Bool.not_eq_true',bne_iff_ne] at known
    obtain ⟨⟨⟨small,other⟩,mark⟩,bracket⟩ := known
    exact ⟨by rw [telling,language.classes.isDecimal_ascii code small,other,mark]; rfl,bracket⟩
  constructor
  · rintro rfl
    exact (Conservation.redactText_plain language.classes text (fun member =>
      (plain 91 member).2 rfl)).symm
  · rintro rfl
    exact redactText_idle (fun code member => (plain code member).1) short

theorem redactFields_lookup (fields : List (Str × Value)) (key : Str) :
    (redactFields language.options fields).lookup key =
    (fields.lookup key).map (redactLeaves language.options) := by
  induction fields with
  | nil => rw [redactFields]; rfl
  | cons field rest ih =>
    obtain ⟨name,value⟩ := field
    rw [redactFields,List.lookup_cons,List.lookup_cons]
    cases key == name with
    | true => rfl
    | false => exact ih

theorem redactLeaves_str (value : Value) (text : Str) :
    redactLeaves language.options value = .str text ↔
    ∃ before, value = .str before ∧ redactText language.options before = text := by
  cases value <;> simp [redactLeaves]

theorem redactLeaves_dict (value : Value) (fields : List (Str × Value)) :
    redactLeaves language.options value = .dict fields ↔
    ∃ before, value = .dict before ∧ redactFields language.options before = fields := by
  cases value <;> simp [redactLeaves]

theorem lookup_word (fields : List (Str × Value)) (key : Str) {word : Str}
    (known : isPlainWord word = true) :
    (redactFields language.options fields).lookup key = some (.str word) ↔
    fields.lookup key = some (.str word) := by
  rw [redactFields_lookup,Option.map_eq_some_iff]
  simp only [redactLeaves_str,redactText_word language known]
  constructor
  · rintro ⟨value,found,before,rfl,rfl⟩
    exact found
  · exact fun found => ⟨_,found,word,rfl,rfl⟩

theorem lookup_text (fields : List (Str × Value)) (key : Str) :
    (∃ text, (redactFields language.options fields).lookup key = some (.str text)) ↔
    ∃ text, fields.lookup key = some (.str text) := by
  simp only [redactFields_lookup,Option.map_eq_some_iff,redactLeaves_str]
  constructor
  · rintro ⟨text,value,found,before,rfl,-⟩
    exact ⟨before,found⟩
  · rintro ⟨text,found⟩
    exact ⟨_,_,found,text,rfl,rfl⟩

theorem truthy_redacted (value : Value) :
    truthy (redactLeaves language.options value) = truthy value := by
  cases value with
  | str text =>
    simp only [redactLeaves,truthy]
    congr 1
    rw [Bool.eq_iff_iff,List.isEmpty_iff,List.isEmpty_iff]
    exact Conservation.redactText_nil_iff language.classes text
  | list items => cases items <;> simp only [redactLeaves,redactItems,truthy,List.isEmpty_nil,
      List.isEmpty_cons]
  | dict fields => cases fields <;> simp only [redactLeaves,redactFields,truthy,List.isEmpty_nil,
      List.isEmpty_cons]
  | _ => simp only [redactLeaves]

theorem lookup_getD_redacted (fields : List (Str × Value)) (key : Str) :
    ((redactFields language.options fields).lookup key).getD .null =
      redactLeaves language.options ((fields.lookup key).getD .null) := by
  rw [redactFields_lookup]
  cases fields.lookup key with
  | none => rw [Option.map_none,Option.getD_none,redactLeaves]
  | some value => rfl

theorem innerOf_redacted (fields : List (Str × Value)) :
    innerOf (redactFields language.options fields) =
      redactLeaves language.options (innerOf fields) := by
  rw [innerOf,innerOf]
  simp only [lookup_getD_redacted,truthy_redacted]
  split_ifs <;> rfl

/-- The kinds of a block delta that carry a text, and the field where it is. -/
def textFields : List (Str × Str) :=
  [(lit "text_delta",lit "text"),(lit "input_json_delta",lit "partial_json")]

/-- The block delta of an event has a text. -/
def DeltaText (fields : List (Str × Value)) : Prop :=
  ∃ delta, fields.lookup (lit "delta") = some (.dict delta) ∧
  ∃ kind name, (kind,name) ∈ textFields ∧
    delta.lookup (lit "type") = some (.str kind) ∧ ∃ text, delta.lookup name = some (.str text)

/-- A choice has a text. -/
def ChoiceText (choice : Value) : Prop :=
  ∃ fields, choice = .dict fields ∧ ∃ inner, innerOf fields = .dict inner ∧
  ∃ text, inner.lookup (lit "content") = some (.str text)

theorem locateDelta_filled (fields : List (Str × Value)) :
    locateDelta language.tables fields ≠ [] ↔ DeltaText fields := by
  rw [locateDelta,DeltaText]
  cases fields.lookup (lit "delta") with
  | none => simp
  | some value =>
    cases value with
    | dict delta =>
      simp only [textFields,List.mem_cons,List.not_mem_nil,or_false,Prod.mk.injEq,Option.some.injEq,
        Value.dict.injEq,exists_eq_left']
      cases delta.lookup (lit "type") with
      | none => simp
      | some value =>
        cases value with
        | str kind =>
          have apart : lit "text_delta" ≠ lit "input_json_delta" := by decide
          simp only [Option.some.injEq,Value.str.injEq,or_and_right,exists_or,and_assoc]
          by_cases prose : kind = lit "text_delta"
          · rw [if_pos prose,prose]
            cases found : delta.lookup (lit "text") with
            | none => simp [apart,found]
            | some value => cases value <;> simp [apart,found]
          · by_cases arguments : kind = lit "input_json_delta"
            · rw [if_neg prose,if_pos arguments,arguments]
              cases found : delta.lookup (lit "partial_json") with
              | none => simp [apart.symm,found]
              | some value => cases value <;> simp [apart.symm,found]
            · simp [prose,arguments]
        | _ => simp
    | _ => simp

theorem locateChoice_filled (claimed : Bool) (choice : Value) (position : Nat) :
    locateChoice claimed choice position ≠ none ↔ ChoiceText choice := by
  cases choice with
  | dict fields =>
    rw [ChoiceText]
    simp only [locateChoice,Value.dict.injEq,exists_eq_left']
    cases innerOf fields with
    | dict inner =>
      simp only [Value.dict.injEq,exists_eq_left']
      cases inner.lookup (lit "content") with
      | none => simp
      | some value => cases value <;> simp
    | _ => simp
  | _ => simp [locateChoice,ChoiceText]

theorem locateChoices_filled (claimed : Bool) (choices : List Value) (start : Nat) :
    locateChoices claimed choices start ≠ [] ↔ ∃ choice ∈ choices, ChoiceText choice := by
  induction choices generalizing start with
  | nil => simp [locateChoices]
  | cons choice choices ih =>
    rw [locateChoices,ne_eq,List.append_eq_nil_iff,not_and_or,Option.toList_eq_nil_iff]
    simp only [List.mem_cons,exists_eq_or_imp]
    exact or_congr (locateChoice_filled claimed choice start) (ih _)

theorem located_filled (payload : Value) : locateTexts language.tables payload ≠ [] ↔
    ∃ fields, payload = .dict fields ∧ (DeltaText fields ∨ ∃ choice ∈ choicesOf fields,
      ChoiceText choice) := by
  cases payload with
  | dict fields =>
    rw [locateTexts,ne_eq,List.append_eq_nil_iff,not_and_or]
    simp only [Value.dict.injEq,exists_eq_left']
    exact or_congr (locateDelta_filled language fields) (locateChoices_filled _ _ 0)
  | _ => simp [locateTexts]

theorem deltaText_redacted (fields : List (Str × Value)) :
    DeltaText (redactFields language.options fields) ↔ DeltaText fields := by
  have words : ∀ entry ∈ textFields, isPlainWord entry.1 = true := by decide
  constructor
  · rintro ⟨delta,found,kind,name,listed,type,text⟩
    rw [redactFields_lookup,Option.map_eq_some_iff] at found
    obtain ⟨value,found,same⟩ := found
    obtain ⟨before,rfl,rfl⟩ := (redactLeaves_dict language value delta).mp same
    exact ⟨before,found,kind,name,listed,(lookup_word language before _ (words _ listed)).mp type,
      (lookup_text language before name).mp text⟩
  · rintro ⟨delta,found,kind,name,listed,type,text⟩
    refine ⟨redactFields language.options delta,?_,kind,name,listed,
      (lookup_word language delta _ (words _ listed)).mpr type,
      (lookup_text language delta name).mpr text⟩
    rw [redactFields_lookup,found,Option.map_some,redactLeaves]

theorem choiceText_redacted (choice : Value) :
    ChoiceText (redactLeaves language.options choice) ↔ ChoiceText choice := by
  constructor
  · rintro ⟨fields,shape,inner,found,text⟩
    obtain ⟨before,rfl,rfl⟩ := (redactLeaves_dict language choice fields).mp shape
    rw [innerOf_redacted] at found
    obtain ⟨within,same,rfl⟩ := (redactLeaves_dict language _ inner).mp found
    exact ⟨before,rfl,within,same,(lookup_text language within _).mp text⟩
  · rintro ⟨fields,rfl,inner,found,text⟩
    refine ⟨redactFields language.options fields,
      by rw [redactLeaves],redactFields language.options inner,?_,
      (lookup_text language inner _).mpr text⟩
    rw [innerOf_redacted,found,redactLeaves]

theorem choicesOf_redacted (fields : List (Str × Value)) :
    choicesOf (redactFields language.options fields) =
      redactItems language.options (choicesOf fields) := by
  rw [choicesOf,choicesOf,redactFields_lookup]
  cases fields.lookup (lit "choices") with
  | none => rw [redactItems]; rfl
  | some value => cases value <;> simp only [Option.map_some,redactLeaves,redactItems]

theorem choicesText_redacted (choices : List Value) :
    (∃ choice ∈ redactItems language.options choices, ChoiceText choice) ↔ ∃ choice ∈ choices,
      ChoiceText choice := by
  induction choices with
  | nil => rw [redactItems]
  | cons choice choices ih =>
    rw [redactItems]
    simp only [List.mem_cons,exists_eq_or_imp]
    exact or_congr (choiceText_redacted language choice) ih

/-- A text is located in a payload just if one is located in what redaction makes of it. -/
theorem located_redacted_iff (payload : Value) :
    locateTexts language.tables (redactLeaves language.options payload) = [] ↔
    locateTexts language.tables payload = [] := by
  rw [← not_iff_not]
  refine (located_filled language _).trans (Iff.trans ?_ (located_filled language payload).symm)
  constructor
  · rintro ⟨fields,shape,text⟩
    obtain ⟨before,rfl,rfl⟩ := (redactLeaves_dict language payload fields).mp shape
    rw [deltaText_redacted,choicesOf_redacted,choicesText_redacted] at text
    exact ⟨before,rfl,text⟩
  · rintro ⟨fields,rfl,text⟩
    refine ⟨redactFields language.options fields,by rw [redactLeaves],?_⟩
    rwa [deltaText_redacted,choicesOf_redacted,choicesText_redacted]

end Words

end QuilrMcp.Guardrail.Leaves
