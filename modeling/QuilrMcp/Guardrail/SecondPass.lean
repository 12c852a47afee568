import QuilrMcp.Guardrail.CardSpans
import QuilrMcp.Guardrail.Conservation
import QuilrMcp.Library.Editing

/-! A second redaction. The guard behind a match looks at what the first redaction has replaced since,
so a value that stands directly behind another can be found by the second only. Nothing else can. -/
namespace QuilrMcp.Guardrail.SecondPass
open Library.Text
open Library.Search
open Library.Cutting
open Library.Editing
open Library.Unicode (Classes asciiClasses isAsciiDigit isAsciiLetter)
open Patterns
open Redactor
open Passes
open CardShape
open Conservation

variable {classes : Classes} {pattern : Pattern} {text left right stretch front : Str}

/-- The pass replaces the stretch, behind what stands before it. -/
def Cut (pattern : Pattern) (text front stretch : Str) : Prop :=
  (front.length,front.length + stretch.length) ∈ passSpans pattern text false ∧
  front ++ stretch <+: text

private theorem kept_edits {placeholder : Str} {position stop : Nat}
    (spared : ∀ i, position ≤ i → i < stop → Spared pattern text false i) (order : position ≤ stop)
    (inside : stop ≤ text.length) :
    Edits (Cut pattern text) (fun front => Spared pattern text false front.length) placeholder
      (text.take position)
      (slice text position stop) (slice text position stop) := by
  by_cases empty : position = stop
  · subst empty
    rw [slice,List.drop_eq_nil_of_le (List.length_take_le _ _)]
    exact .nil _
  · have here : text[position]? = some text[position] := List.getElem?_eq_getElem (by omega)
    have size : (text.take position).length = position := List.length_take_of_le (by omega)
    rw [slice_append (Nat.le_succ position) (by omega : position + 1 ≤ stop) inside,slice_one here]
    refine .keep _ ?_ ?_
    · rw [size]
      exact spared position (Nat.le_refl _) (by omega)
    · have later := @kept_edits placeholder (position + 1) stop (fun i low high =>
        spared i (by omega) high) (by omega) inside
      rw [List.take_add_one,here] at later
      exact later
termination_by stop - position

private theorem placed_edits {placeholder : Str} {position : Nat} {spans : List (Nat × Nat)}
    (placed : Placed pattern text false position spans) (inside : position ≤ text.length)
    (among : ∀ span ∈ spans, span ∈ passSpans pattern text false) :
    Edits (Cut pattern text) (fun front => Spared pattern text false front.length) placeholder
      (text.take position)
      (text.drop position) (replaceSpans text placeholder position spans) := by
  induction placed with
  | @rest position spared =>
    have whole : slice text position text.length = text.drop position := by
      rw [slice,List.take_length]
    rw [replaceSpans,← whole]
    exact kept_edits (fun i low high => spared i low (by omega)) inside (Nat.le_refl _)
  | @span position start whole stop spans order nonempty within first valid spared _ ih =>
    obtain ⟨here,later⟩ := List.forall_mem_cons.mp among
    have size : (text.take start).length = start := List.length_take_of_le (by omega)
    have long : (slice text start stop).length = stop - start := length_slice within
    have filled : slice text start stop ≠ [] := List.ne_nil_of_length_pos (by omega)
    rw [replaceSpans,drop_slice order (by omega),drop_slice (Nat.le_of_lt nonempty) within,
      List.append_assoc]
    refine edits_append (kept_edits spared order (by omega)) ?_
    rw [take_slice order]
    refine .cut _ filled ⟨?_,?_⟩ ?_
    · rwa [size,long,Nat.add_sub_cancel' (Nat.le_of_lt nonempty)]
    · rw [take_slice (Nat.le_of_lt nonempty)]
      exact List.take_prefix _ _
    · rw [take_slice (Nat.le_of_lt nonempty)]
      exact ih within later

theorem pass_edits (placeholder : Str) (advances : 0 < minLength pattern.expression) :
    Edits (Cut pattern text) (fun front => Spared pattern text false front.length)
      placeholder [] text
      (pass pattern placeholder text false).1 := by
  rw [pass_replaces]
  exact placed_edits (passSpans_placed advances) (Nat.zero_le _) (fun _ member => member)

/-- What is cut is a match that the validator accepts. -/
theorem cut_match (advances : 0 < minLength pattern.expression)
    (cut : Cut pattern text front stretch) :
    stretch ≠ [] ∧ ∃ rest, text = front ++ (stretch ++ rest) ∧
    ∃ whole, (ends pattern.expression text front.length).head? = some whole ∧
      validatedEnd pattern text front.length whole = some (front.length + stretch.length) := by
  obtain ⟨member,rest,shape⟩ := cut
  obtain ⟨nonempty,_,matched⟩ := mem_passSpans advances member
  rw [List.append_assoc] at shape
  exact ⟨List.ne_nil_of_length_pos (by omega),rest,shape.symm,matched⟩

private theorem cut_apart (listed : pattern ∈ defaultPatterns classes)
    (cut : Cut pattern text front stretch) :
    Apart redactionPlaceholder stretch := by
  have advances := default_advancing classes pattern listed
  obtain ⟨_,rest,shape,whole,first,valid⟩ := cut_match advances cut
  have inside : front.length ≤ text.length := by
    rw [shape,List.length_append]
    omega
  have same : slice text front.length (front.length + stretch.length) = stretch := by
    rw [shape,slice,← List.append_assoc,← List.length_append,List.take_left,List.drop_left]
  exact same ▸ replaced_apart listed ⟨_,_,_,inside,first,valid,rfl⟩

/-- What stands beside a stretch is what stood there, or a placeholder before it, or behind it something
in place of a cut. -/
structure Beside (Follows : Option Nat → Option Nat → Prop)
    (stretch before after left right : Str) : Prop where
  last : left.getLast? = before.getLast? ∨ redactionPlaceholder <:+ left
  head : right.head? = after.head? ∨ Follows stretch.getLast? after.head?
  behind : redactionPlaceholder <:+ before → redactionPlaceholder <:+ left

variable {Follows : Option Nat → Option Nat → Prop}

private theorem beside_trans {before after before' after' : Str}
    (first : Beside Follows stretch before after before' after')
    (second : Beside Follows stretch before' after' left right) :
    Beside Follows stretch before after left right where
  last := by
    rcases second.last with same | ends
    · rcases first.last with same' | ends
      · exact Or.inl (same.trans same')
      · exact Or.inr (second.behind ends)
    · exact Or.inr ends
  head := by
    rcases first.head with same | follows
    · rw [← same]
      exact second.head
    · exact Or.inr follows
  behind ends := second.behind (first.behind ends)

/-- A stretch that is left after a pass stood at a place that the pass spared. -/
theorem pass_back (listed : pattern ∈ defaultPatterns classes)
    (follows : ∀ front stretch, Cut pattern text front stretch →
      Follows front.getLast? stretch.head?) (filled : stretch ≠ [])
    (apart : Apart redactionPlaceholder stretch)
    (shape : (pass pattern redactionPlaceholder text false).1 = left ++ (stretch ++ right)) :
    ∃ before after, text = before ++ (stretch ++ after) ∧
    Beside Follows stretch before after left right ∧
      Spared pattern text false before.length := by
  have edits :=
    @pass_edits pattern text redactionPlaceholder (default_advancing classes pattern listed)
  rw [shape] at edits
  obtain ⟨before,after,whole,fronts,spared,rests⟩ :=
    edits_window placeholder_filled filled apart edits
  rw [List.nil_append] at spared rests
  refine ⟨before,after,whole,⟨edits_last fronts,?_,fun ends => ?_⟩,spared⟩
  · rcases edits_head rests with same | ⟨cut,_,known,same⟩
    · exact Or.inl same
    · have next := follows _ _ known
      rw [List.getLast?_append_of_ne_nil _ filled,← same] at next
      exact Or.inr next
  · obtain ⟨n,cuts⟩ := edits_cuts fronts
    apply cuts_suffix placeholder_filled _ cuts ends
    rintro stretch ⟨front,known⟩
    exact cut_apart listed known

/-- In every pass, what is cut stands in a relation to what is before it. -/
def EachCut (Known : Str → Str → Prop) : List Pattern → Str → Prop
  | [], _ => True
  | pattern::patterns, text => (∀ front stretch, Cut pattern text front stretch →
      Known front stretch) ∧
    EachCut Known patterns (pass pattern redactionPlaceholder text false).1

theorem eachCut_append {Known : Str → Str → Prop} (patterns more : List Pattern) (text : Str) :
    EachCut Known (patterns ++ more) text ↔
      EachCut Known patterns text ∧
      EachCut Known more (redact redactionPlaceholder false patterns text).1 := by
  induction patterns generalizing text with
  | nil => exact (true_and _).symm ▸ Iff.rfl
  | cons pattern patterns ih => rw [List.cons_append,EachCut,EachCut,ih,redact_cons,and_assoc]

theorem eachCut_mono {Known Known' : Str → Str → Prop}
    (weaker : ∀ front stretch, Known front stretch → Known' front stretch) (patterns : List Pattern)
    (text : Str) (each : EachCut Known patterns text) : EachCut Known' patterns text := by
  induction patterns generalizing text with
  | nil => trivial
  | cons pattern patterns ih =>
    exact ⟨fun front stretch cut => weaker front stretch (each.1 front stretch cut),ih _ each.2⟩

private theorem eachCut_all {Known : Str → Str → Prop} (patterns : List Pattern)
    (all : ∀ pattern ∈ patterns, ∀ text front stretch, Cut pattern text front stretch →
      Known front stretch) (text : Str) :
    EachCut Known patterns text := by
  induction patterns generalizing text with
  | nil => trivial
  | cons pattern patterns ih =>
    obtain ⟨here,rest⟩ := List.forall_mem_cons.mp all
    exact ⟨here text,ih rest _⟩

/-- A stretch that is left after all passes stood in the first text. -/
theorem redact_back {patterns : List Pattern}
    (listed : ∀ pattern ∈ patterns, pattern ∈ defaultPatterns classes)
    (each : EachCut (fun front stretch => Follows front.getLast? stretch.head?) patterns text)
    (filled : stretch ≠ []) (apart : Apart redactionPlaceholder stretch)
    (shape : (redact redactionPlaceholder false patterns text).1 = left ++ (stretch ++ right)) :
    ∃ before after, text = before ++ (stretch ++ after) ∧
    Beside Follows stretch before after left right := by
  induction patterns generalizing text with
  | nil => exact ⟨left,right,shape,⟨Or.inl rfl,Or.inl rfl,fun ends => ends⟩⟩
  | cons pattern patterns ih =>
    obtain ⟨here,rest⟩ := List.forall_mem_cons.mp listed
    rw [redact_cons] at shape
    obtain ⟨before',after',whole',beside'⟩ := ih rest each.2 shape
    obtain ⟨before,after,whole,beside,_⟩ := pass_back here each.1 filled apart whole'
    exact ⟨before,after,whole,beside_trans beside beside'⟩

/-- Around what a pass cuts there is a window such that the pass has something to replace at its start
wherever the window stands behind the same code, and before the same or before what follows cuts. -/
def Recurs (Follows : Option Nat → Option Nat → Prop) (pattern : Pattern) : Prop :=
  ∀ text front stretch, Cut pattern text front stretch →
  ∃ window right, text = front ++ (window ++ right) ∧ window ≠ [] ∧
    Apart redactionPlaceholder window ∧ ∀ before after, front.getLast? = before.getLast? →
      (right.head? = after.head? ∨ Follows window.getLast? after.head?) →
      ¬ Spared pattern (before ++ (window ++ after)) false before.length

private theorem matched_cut (plain : pattern.validate = none) {i : Nat}
    (matched : ends pattern.expression text i ≠ []) :
    ¬ Spared pattern text false i := by
  intro spared
  obtain ⟨stop,rest,shape⟩ := List.exists_cons_of_ne_nil matched
  have accepted : validatedEnd pattern text i stop = some stop := by
    rw [validatedEnd,plain,Pattern.accepts,plain]
    exact if_pos rfl
  have held := spared stop stop (by rw [shape]; rfl) accepted
  exact Bool.false_ne_true held.1

private theorem cut_plain (plain : pattern.validate = none)
    (advances : 0 < minLength pattern.expression) (cut : Cut pattern text front stretch) :
    stretch ≠ [] ∧ ∃ rest, text = front ++ (stretch ++ rest) ∧
      front.length + stretch.length ∈ ends pattern.expression text front.length := by
  obtain ⟨filled,rest,shape,whole,first,valid⟩ := cut_match advances cut
  rw [validatedEnd,plain] at valid
  simp only at valid
  split_ifs at valid
  obtain rfl := Option.some.inj valid
  exact ⟨filled,rest,shape,List.mem_of_mem_head? first⟩

private theorem mem_behind {guard : Nat → Bool} {regex : Regex} {stop : Nat} :
    stop ∈ ends (.seq (.notBehind guard) regex) (front ++ text) front.length ↔
      front.getLast?.any guard = false ∧ stop ∈ ends regex (front ++ text) front.length := by
  have same : (0 < front.length ∧ (front ++ text)[front.length - 1]?.any guard = true) ↔
    front.getLast?.any guard = true := by
    rw [List.getLast?_eq_getElem?]
    cases front with
    | nil => simp
    | cons code front =>
      rw [List.getElem?_append_left (by rw [List.length_cons]; omega)]
      exact and_iff_right (Nat.succ_pos _)
  rw [ends_guarded]
  split_ifs with behind
  · rw [same.mp behind]
    exact iff_of_false List.not_mem_nil (fun both => Bool.false_ne_true both.1.symm)
  · exact (and_iff_right (Bool.eq_false_iff.mpr (fun found => behind (same.mpr found)))).symm

private theorem agree_window (front window right before after : Str) :
    Agree (front ++ (window ++ right)) (before ++ (window ++ after)) front.length before.length
      window.length := by
  intro k below
  rw [List.getElem?_append_right (Nat.le_add_right _ _),
    List.getElem?_append_right (Nat.le_add_right _ _),
    Nat.add_sub_cancel_left,Nat.add_sub_cancel_left,List.getElem?_append_left below,
    List.getElem?_append_left below]

private theorem front_inside (front text : Str) : front.length ≤ (front ++ text).length := by
  rw [List.length_append]
  omega

private theorem match_window (listed : pattern ∈ defaultPatterns classes) {right : Str}
    (member : front.length + stretch.length ∈ ends pattern.expression (front ++
      (stretch ++ right)) front.length) :
    Apart redactionPlaceholder stretch := by
  have apart := match_apart listed (front_inside _ _) member
  have same : slice (front ++ (stretch ++ right)) front.length (front.length + stretch.length) =
    stretch := by
    rw [slice,← List.append_assoc,← List.length_append,List.take_left,List.drop_left]
  rwa [same] at apart

private theorem email_recurs : Recurs Follows (email classes) := by
  intro text front stretch cut
  have listed : email classes ∈ defaultPatterns classes := List.mem_cons_self
  obtain ⟨filled,right,rfl,member⟩ := cut_plain rfl (default_advancing classes _ listed) cut
  refine ⟨stretch,right,rfl,filled,match_window listed member,fun before after last _ =>
    matched_cut rfl ?_⟩
  have shape : (email classes).expression = .seq (.notBehind (localPart classes)) (.sequence
    [.many (localPart classes) 1,.literal (lit "@"),.many (domainPart classes) 1,.literal (lit "."),
      .many (letter classes) 2]) := rfl
  rw [shape,mem_behind] at member
  have again := ends_same _ rfl (front_inside _ _) (agree_window front stretch right before after)
    (Nat.le_refl _) member.2
  rw [shape]
  exact List.ne_nil_of_mem (mem_behind.mpr ⟨last ▸ member.1,again⟩)

private theorem ssn_recurs : Recurs Follows (ssn classes) := by
  intro text front stretch cut
  have listed : ssn classes ∈ defaultPatterns classes := by simp [defaultPatterns]
  have advances := default_advancing classes _ listed
  obtain ⟨filled,right,rfl,member⟩ := cut_plain rfl advances cut
  refine ⟨stretch,right,rfl,filled,match_window listed member,fun before after _ _ =>
    matched_cut rfl ?_⟩
  have bound := ends_bound _ _ _ (front_inside _ _) _ member
  have least : minLength (ssn classes).expression = 11 := rfl
  have wide : 11 ≤ stretch.length := by omega
  rw [ends_window (ssn classes).expression rfl 11 11 rfl front stretch right wide] at member
  rw [ends_window (ssn classes).expression rfl 11 11 rfl before stretch after wide]
  intro empty
  rw [List.map_eq_nil_iff.mp empty] at member
  contradiction

private theorem behind_window (front window right : Str) :
    (front ++ (window ++ right))[front.length + window.length]? = right.head? := by
  rw [← List.append_assoc,← List.length_append,List.getElem?_append_right (Nat.le_refl _),
    Nat.sub_self,List.head?_eq_getElem?]

private theorem last_of_window {front window right : Str} (filled : window ≠ []) :
    (front ++ (window ++ right))[front.length + window.length - 1]? = window.getLast? := by
  have long := List.length_pos_of_ne_nil filled
  rw [List.getElem?_append_right (by omega),List.getElem?_append_left (by omega),
    List.getLast?_eq_getElem?,
    show front.length + window.length - 1 - front.length = window.length - 1 by omega]

/-- No digit follows a digit. -/
def DigitsEnd (classes : Classes) (before after : Option Nat) : Prop :=
  before.any classes.isDecimal = true → after.any classes.isDecimal = false

private theorem digits_end {right after : Str} {last : Option Nat}
    (digit : last.any classes.isDecimal = true) (clear : right.head?.any classes.isDecimal = false)
    (beside : right.head? = after.head? ∨ DigitsEnd classes last after.head?) :
    after.head?.any classes.isDecimal = false := by
  rcases beside with same | ended
  · rwa [← same]
  · exact ended digit

/-- The shapes of a phone number. -/
private def phoneShapes (classes : Classes) : Regex :=
  .alt (.sequence [.literal (lit "+1"),maybe (oneOf " .-"),
    .alt (phoneArea classes) (digits classes 3),phoneRest classes])
    (.alt (.sequence [phoneArea classes,phoneRest classes])
      (.sequence [digits classes 3,oneOf " .-",digits classes 3,maybe (oneOf " .-"),
        digits classes 4]))

private theorem phone_shape :
    (phone classes).expression = .seq (.notBehind (fun code => classes.isWord code || code == 45))
    (.seq (phoneShapes classes) (.notAhead (.char classes.isDecimal))) := rfl

private theorem phone_trailing : Trailing classes.isDecimal (phoneShapes classes) := by
  have digits : Trailing classes.isDecimal (digits classes 4) :=
    trailing_within (fun _ known => known) (by decide : 0 < 4 * 1)
  have rest : Trailing classes.isDecimal (phoneRest classes) :=
    trailing_seq (trailing_seq (trailing_seq digits))
  exact trailing_alt (trailing_seq (trailing_seq (trailing_seq rest)))
    (trailing_alt (trailing_seq rest)
      (trailing_seq (trailing_seq (trailing_seq (trailing_seq digits)))))

private theorem phone_recurs : Recurs (DigitsEnd classes) (phone classes) := by
  intro text front stretch cut
  have listed : phone classes ∈ defaultPatterns classes := by simp [defaultPatterns]
  obtain ⟨filled,right,rfl,member⟩ := cut_plain rfl (default_advancing classes _ listed) cut
  refine ⟨stretch,right,rfl,filled,match_window listed member,fun before after last beside =>
    matched_cut rfl ?_⟩
  rw [phone_shape,mem_behind,mem_ends_ahead,behind_window] at member
  obtain ⟨clear,here,ended⟩ := member
  have again := ends_same _ rfl (front_inside _ _) (agree_window front stretch right before after)
    (Nat.le_refl _) here
  have digit := (phone_trailing _ _ (front_inside _ _) _ here).2
  rw [last_of_window filled] at digit
  rw [phone_shape]
  refine List.ne_nil_of_mem (mem_behind.mpr ⟨last ▸ clear,(mem_ends_ahead ..).mpr ⟨again,?_⟩⟩)
  rw [behind_window]
  exact digits_end digit ended beside

private def providerKey : Regex := .seq (.literal (lit "sk-ant-")) (.many keyPart 16)
private def secretKey : Regex := .seq (.literal (lit "sk-")) (.many alphanumeric 20)
private def accessKey : Regex := .seq (.literal (lit "AKIA")) (.rep (.char upperOrDigit) 16 0)
private def keyShapes : Regex := .alt providerKey (.alt secretKey accessKey)

private theorem key_shape : apiKey.expression =
      .seq (.notBehind alphanumeric) (.seq keyShapes (.notAhead (.char alphanumeric))) := rfl

private theorem access_trailing : Trailing alphanumeric accessKey := by
  apply trailing_seq
  refine trailing_within (fun code known => ?_) (by decide : 0 < 16 * 1)
  simp only [upperOrDigit,alphanumeric,isAsciiDigit,isAsciiLetter,Bool.or_eq_true,Bool.and_eq_true,
    decide_eq_true_eq] at known ⊢
  omega

/-- Behind a letter or digit no key begins. -/
def KeyApart (before _ : Option Nat) : Prop := before.any alphanumeric = false

private theorem key_recurs (classes : Classes) : Recurs KeyApart apiKey := by
  intro text front stretch cut
  have listed : apiKey ∈ defaultPatterns classes := by simp [defaultPatterns]
  obtain ⟨filled,right,rfl,member⟩ := cut_plain rfl (default_advancing classes _ listed) cut
  refine ⟨stretch,right,rfl,filled,match_window listed member,fun before after last beside =>
    matched_cut rfl ?_⟩
  rw [key_shape,mem_behind,mem_ends_ahead,behind_window] at member
  obtain ⟨clear,here,ended⟩ := member
  rw [key_shape]
  have again (regex : Regex) (free : lookFree regex = true)
      (found : front.length + stretch.length ∈ ends regex (front ++
        (stretch ++ right)) front.length) :
      before.length + stretch.length ∈ ends regex (before ++ (stretch ++ after)) before.length :=
    ends_same regex free (front_inside _ _) (agree_window front stretch right before after)
      (Nat.le_refl _) found
  -- two shapes end with a run, which can be followed to its end
  have reached {e : Nat} (one : e ∈ ends keyShapes (before ++ (stretch ++ after)) before.length)
      (past : (before ++ (stretch ++ after))[e]?.any alphanumeric = false) :
      ends (.seq (.notBehind alphanumeric) (.seq keyShapes (.notAhead (.char alphanumeric))))
        (before ++ (stretch ++ after))
        before.length ≠ [] :=
          List.ne_nil_of_mem (mem_behind.mpr ⟨last ▸ clear,(mem_ends_ahead ..).mpr ⟨one,past⟩⟩)
  simp only [keyShapes,mem_ends_alt] at here reached
  rcases here with provider | secret | access
  · obtain ⟨e,longest,past⟩ := ends_run (again providerKey rfl provider)
    refine reached (Or.inl longest) ?_
    cases next : (before ++ (stretch ++ after))[e]? with
    | none => rfl
    | some code =>
      rw [next] at past
      have outside : keyPart code = false := past
      rw [keyPart,Bool.or_eq_false_iff] at outside
      exact outside.1
  · obtain ⟨e,longest,past⟩ := ends_run (again secretKey rfl secret)
    exact reached (Or.inr (Or.inl longest)) past
  · have trailing := (access_trailing _ _ (front_inside _ _) _ access).2
    rw [last_of_window filled] at trailing
    refine reached (Or.inr (Or.inr (again accessKey rfl access))) ?_
    rw [behind_window]
    rcases beside with same | apart
    · rwa [← same]
    · rw [KeyApart,trailing] at apart
      contradiction

private theorem digit_behind (front text : Str) :
    (0 < front.length → digitAt classes (front ++ text) (front.length - 1) = false) ↔
    front.getLast?.any classes.isDecimal = false := by
  rw [List.getLast?_eq_getElem?,digitAt]
  cases front with
  | nil => simp
  | cons code front =>
    rw [List.getElem?_append_left (by rw [List.length_cons]; omega)]
    exact ⟨fun behind => behind (Nat.succ_pos _),fun behind _ => behind⟩

private theorem slice_window (front window more : Str) :
    slice (front ++ (window ++ more)) front.length (front.length + window.length) = window := by
  rw [slice,← List.append_assoc,← List.length_append,List.take_left,List.drop_left]

private theorem card_found {stretch more before after : Str}
    (chosen : CardSpans.Chosen classes (front ++ ((stretch ++ more) ++ right)) front.length
      (front.length + stretch.length))
    (number : Number classes (front ++ ((stretch ++ more) ++ right)) front.length (front.length +
      (stretch ++ more).length))
    (last : before.getLast?.any classes.isDecimal = false)
    (clear : after.head?.any classes.isDecimal = false) :
    ¬ Spared (creditCard classes) (before ++ ((stretch ++ more) ++ after)) false before.length := by
  intro spared
  have agree := agree_window front (stretch ++ more) right before after
  have again := number_shift classes agree number
  have ended : digitAt classes (before ++ ((stretch ++ more) ++ after)) (before.length +
    (stretch ++ more).length) = false := by
    rw [digitAt,behind_window]
    exact clear
  obtain ⟨first,head,above⟩ :=
    card_greedy classes ((mem_card_iff classes).mpr ⟨(digit_behind before _).mpr last,again,ended⟩)
  cases valid : validatedEnd (creditCard classes) (before ++ ((stretch ++ more) ++ after))
    before.length first with
  | some accepted => exact Bool.false_ne_true (spared first accepted head valid).1
  | none =>
    have shorter : stretch.length ≤ (stretch ++ more).length := by
      rw [List.length_append]
      omega
    have number' : Number classes (before ++ ((stretch ++ more) ++ after)) before.length
      (before.length + stretch.length) :=
      number_shift classes (fun k below => agree k (by omega)) chosen.number
    have failed := CardSpans.validatedEnd_none head valid (before.length + stretch.length)
      (by omega) number'
    have passed := chosen.valid
    rw [List.append_assoc,slice_window] at passed failed
    rw [passed] at failed
    contradiction

private theorem card_recurs : Recurs (DigitsEnd classes) (creditCard classes) := by
  intro text front stretch cut
  have listed : creditCard classes ∈ defaultPatterns classes := by simp [defaultPatterns]
  obtain ⟨filled,rest,rfl,whole,head,valid⟩ := cut_match (default_advancing classes _ listed) cut
  have chosen := (CardSpans.validatedEnd_iff head).mp valid
  obtain ⟨stop,within,number,ended⟩ := chosen.within
  have inside := number_inside classes number
  obtain ⟨more,right,rfl,rfl⟩ : ∃ more right, rest = more ++ right ∧
    stop = front.length + (stretch ++ more).length := by
    refine ⟨rest.take (stop - front.length - stretch.length),
      rest.drop (stop - front.length - stretch.length),
      (List.take_append_drop _ _).symm,?_⟩
    simp only [List.length_append,List.length_take] at inside ⊢
    omega
  have split : front ++ (stretch ++ (more ++ right)) = front ++ ((stretch ++ more) ++ right) := by
    rw [List.append_assoc]
  rw [split] at number ended head chosen
  have windowed : stretch ++ more ≠ [] := fun empty => filled (List.append_eq_nil_iff.mp empty).1
  have member := (mem_card_iff classes).mpr ⟨chosen.before,number,ended⟩
  refine ⟨stretch ++ more,right,split,windowed,match_window listed member,
    fun before after last beside => card_found chosen number ?_ ?_⟩
  · rw [← last]
    exact (digit_behind front _).mp chosen.before
  · have digit : (stretch ++ more).getLast?.any classes.isDecimal = true := by
      obtain ⟨count,m,_,_,_,decimal,ending⟩ := number
      rw [← last_of_window windowed,ending,Nat.add_sub_cancel]
      exact decimal
    rw [digitAt,behind_window] at ended
    exact digits_end digit ended beside

private theorem card_digits (cut : Cut (creditCard classes) text front stretch) :
    DigitsEnd classes front.getLast? stretch.head? := by
  intro digit
  have listed : creditCard classes ∈ defaultPatterns classes := by simp [defaultPatterns]
  obtain ⟨_,rest,rfl,_,head,_⟩ := cut_match (default_advancing classes _ listed) cut
  have clear := (digit_behind front _).mp ((mem_card_iff classes).mp (List.mem_of_mem_head? head)).1
  rw [digit] at clear
  contradiction

private theorem phone_digits (cut : Cut (phone classes) text front stretch) :
    DigitsEnd classes front.getLast? stretch.head? := by
  intro digit
  have listed : phone classes ∈ defaultPatterns classes := by simp [defaultPatterns]
  obtain ⟨_,rest,rfl,member⟩ := cut_plain rfl (default_advancing classes _ listed) cut
  rw [phone_shape,mem_behind] at member
  have clear := member.1
  cases last : front.getLast? with
  | none =>
    rw [last] at digit
    contradiction
  | some code =>
    rw [last,Option.any_some] at digit clear
    rw [classes.isWord_decimal code digit] at clear
    contradiction

private theorem key_letter : Leading (fun code => code == 115 || code == 65) keyShapes := by
  have provider : Leading (fun code => code == 115 || code == 65) providerKey :=
    leading_seq (leading_seq (leading_char (fun code same =>
      Bool.or_eq_true_iff.mpr (Or.inl same))))
  have secret : Leading (fun code => code == 115 || code == 65) secretKey :=
    leading_seq (leading_seq (leading_char (fun code same =>
      Bool.or_eq_true_iff.mpr (Or.inl same))))
  have access : Leading (fun code => code == 115 || code == 65) accessKey :=
    leading_seq (leading_seq (leading_char (fun code same =>
      Bool.or_eq_true_iff.mpr (Or.inr same))))
  exact leading_alt provider (leading_alt secret access)

private theorem key_apart (cut : Cut apiKey text front stretch) :
    KeyApart front.getLast? stretch.head? := by
  have listed : apiKey ∈ defaultPatterns asciiClasses := by simp [defaultPatterns]
  obtain ⟨_,rest,rfl,member⟩ := cut_plain rfl (default_advancing asciiClasses _ listed) cut
  rw [key_shape,mem_behind] at member
  exact member.1

private theorem key_digits (cut : Cut apiKey text front stretch) :
    DigitsEnd classes front.getLast? stretch.head? := by
  intro _
  have listed : apiKey ∈ defaultPatterns asciiClasses := by simp [defaultPatterns]
  obtain ⟨filled,rest,rfl,member⟩ := cut_plain rfl (default_advancing asciiClasses _ listed) cut
  rw [key_shape,mem_behind,mem_ends_ahead] at member
  have first := key_letter _ _ (List.ne_nil_of_mem member.2.1)
  rw [List.getElem?_append_right (Nat.le_refl _),Nat.sub_self,← List.head?_eq_getElem?,
    List.head?_append_of_ne_nil _ filled] at first
  cases head : stretch.head? with
  | none => rfl
  | some code =>
    rw [head,Option.any_some,Bool.or_eq_true,beq_iff_eq,beq_iff_eq] at first
    rw [Option.any_some,classes.isDecimal_ascii code (by omega)]
    rcases first with rfl | rfl <;> rfl

private theorem behind_placeholder (ends : redactionPlaceholder <:+ front) :
    front.getLast? = some 93 := by
  obtain ⟨before,rfl⟩ := ends
  rw [List.getLast?_append_of_ne_nil _ placeholder_filled]
  rfl

/-- The stretch begins directly behind a placeholder. -/
def Fresh (front _ : Str) : Prop := redactionPlaceholder <:+ front

/-- What holds of all that a pass and those after it cut, and of all that begins behind a placeholder, is
enough for the pass to find its matches again. -/
private def Keeps (patterns : List Pattern) : Prop :=
  ∀ pattern rest, patterns = pattern::rest → ∃ Follows : Option Nat → Option Nat → Prop,
  Recurs Follows pattern ∧ (∀ after, Follows (some 93) after) ∧
    ∀ other ∈ patterns, ∀ text front stretch, Cut other text front stretch →
    Follows front.getLast? stretch.head?

private theorem default_keeps {patterns : List Pattern}
    (suffix : patterns <:+ defaultPatterns classes) : Keeps patterns := by
  have bracket : classes.isDecimal 93 = false := classes.isDecimal_ascii 93 (by decide)
  have digits (after : Option Nat) : DigitsEnd classes (some 93) after := by
    intro digit
    rw [Option.any_some,bracket] at digit
    contradiction
  rintro pattern rest rfl
  simp only [defaultPatterns,List.suffix_cons_iff,List.cons.injEq,List.suffix_nil,reduceCtorEq,
    or_false] at suffix
  rcases suffix with ⟨rfl,_⟩ | ⟨rfl,_⟩ | ⟨rfl,rfl⟩ | ⟨rfl,rfl⟩ | ⟨rfl,rfl⟩
  · exact ⟨fun _ _ => True,email_recurs,fun _ => trivial,fun _ _ _ _ _ _ => trivial⟩
  · exact ⟨fun _ _ => True,ssn_recurs,fun _ => trivial,fun _ _ _ _ _ _ => trivial⟩
  · refine ⟨DigitsEnd classes,card_recurs,digits,fun other member text front stretch cut => ?_⟩
    simp only [List.mem_cons,List.not_mem_nil,or_false] at member
    rcases member with rfl | rfl | rfl
    · exact card_digits cut
    · exact phone_digits cut
    · exact key_digits cut
  · refine ⟨DigitsEnd classes,phone_recurs,digits,fun other member text front stretch cut => ?_⟩
    simp only [List.mem_cons,List.not_mem_nil,or_false] at member
    rcases member with rfl | rfl
    · exact phone_digits cut
    · exact key_digits cut
  · refine ⟨KeyApart,key_recurs classes,fun _ => rfl,fun other member text front stretch cut => ?_⟩
    obtain rfl := List.mem_singleton.mp member
    exact key_apart cut

/-- A pass of the second redaction cuts behind a placeholder, if those before it do. -/
private theorem cut_fresh {before rest : List Pattern}
    (split : defaultPatterns classes = before ++ pattern::rest)
    (each : EachCut Fresh before (redact redactionPlaceholder false
      (defaultPatterns classes) text).1)
    (cut : Cut pattern (redact redactionPlaceholder false before (redact redactionPlaceholder false
      (defaultPatterns classes) text).1).1
      front stretch) : Fresh front stretch := by
  have listed (other : Pattern) (member : other ∈ before ++ pattern::rest) : other ∈ defaultPatterns
    classes := split ▸ member
  obtain ⟨Follows,recurs,bracket,known⟩ := default_keeps ⟨before,split.symm⟩ pattern rest rfl
  obtain ⟨window,right,shape,filled,apart,found⟩ := recurs _ front stretch cut
  rw [split,redact_append before,redact_cons] at each shape
  generalize (redact redactionPlaceholder false before text).1 = start at each shape
  rw [← redact_append] at shape
  have fresh : EachCut (fun front stretch => Follows front.getLast? stretch.head?) before
      (redact redactionPlaceholder false rest
        (pass pattern redactionPlaceholder start false).1).1 := by
    refine eachCut_mono (fun front stretch behind => ?_) before _ each
    rw [behind_placeholder behind]
    exact bracket _
  have later : EachCut (fun front stretch => Follows front.getLast? stretch.head?) rest
    (pass pattern redactionPlaceholder start false).1 :=
    eachCut_all rest (fun other member => known other (List.mem_cons_of_mem _ member)) _
  have patterns (other : Pattern) (member : other ∈ rest ++ before) : other ∈
    defaultPatterns classes := by
    apply listed
    rcases List.mem_append.mp member with here | here
    · exact List.mem_append_right _ (List.mem_cons_of_mem _ here)
    · exact List.mem_append_left _ here
  obtain ⟨left',right',whole',beside'⟩ :=
    redact_back patterns ((eachCut_append rest before _).mpr ⟨later,fresh⟩) filled apart shape
  obtain ⟨left,right,rfl,beside,spared⟩ :=
    pass_back (listed _ (List.mem_append_right _ List.mem_cons_self))
    (known pattern List.mem_cons_self _) filled apart whole'
  have together := beside_trans beside beside'
  rcases together.last with same | ends
  · exact absurd spared (found left right same together.head)
  · exact ends

private theorem second_fresh (patterns rest : List Pattern)
    (split : defaultPatterns classes = patterns ++ rest) :
    EachCut Fresh patterns (redact redactionPlaceholder false
      (defaultPatterns classes) text).1 := by
  induction patterns using List.reverseRecOn generalizing rest with
  | nil => trivial
  | append_singleton patterns pattern ih =>
    rw [List.append_assoc,List.singleton_append] at split
    have before := ih _ split
    exact (eachCut_append _ _ _).mpr ⟨before,fun front stretch cut =>
      cut_fresh split before cut,trivial⟩

private theorem span_cut {start stop : Nat} (listed : pattern ∈ defaultPatterns classes)
    (member : (start,stop) ∈ passSpans pattern text false) :
    Cut pattern text (text.take start) (slice text start stop) := by
  obtain ⟨nonempty,inside,_⟩ := mem_passSpans (default_advancing classes pattern listed) member
  have size : (text.take start).length = start := List.length_take_of_le (by omega)
  have long : (slice text start stop).length = stop - start := length_slice inside
  constructor
  · rwa [size,long,Nat.add_sub_cancel' (Nat.le_of_lt nonempty)]
  · rw [take_slice (Nat.le_of_lt nonempty)]
    exact List.take_prefix _ _

private theorem pass_uncut (placeholder : Str) (empty : passSpans pattern text false = []) :
    (pass pattern placeholder text false).1 = text := by
  rw [pass_replaces,empty]
  rfl

private theorem uncut_of_unrecorded {patterns : List Pattern}
    (unrecorded : (redact redactionPlaceholder false patterns text).2.length = 0) :
    ∀ pattern ∈ patterns, passSpans pattern text false = [] := by
  induction patterns with
  | nil => exact fun pattern member => absurd member List.not_mem_nil
  | cons first patterns ih =>
    rw [redact,List.length_append,List.length_replicate,pass_replaces,
      Nat.add_eq_zero_iff] at unrecorded
    have empty := List.length_eq_zero_iff.mp unrecorded.1
    have unchanged : replaceSpans text redactionPlaceholder 0 (passSpans first text false) =
      text := by rw [empty]; rfl
    rw [unchanged] at unrecorded
    exact List.forall_mem_cons.mpr ⟨empty,ih unrecorded.2⟩

/-- No detector accepts a match directly behind a placeholder. -/
def NothingBehind (classes : Classes) (text : Str) : Prop := ∀ pattern ∈ defaultPatterns classes,
  ∀ left right, text = left ++ right → redactionPlaceholder <:+ left →
  Spared pattern text false left.length

private theorem fresh_unchanged (clear : NothingBehind classes text) {patterns : List Pattern}
    (listed : ∀ pattern ∈ patterns, pattern ∈ defaultPatterns classes)
    (fresh : EachCut Fresh patterns text) :
    (redact redactionPlaceholder false patterns text).1 = text := by
  induction patterns with
  | nil => rfl
  | cons pattern patterns ih =>
    obtain ⟨here,rest⟩ := List.forall_mem_cons.mp listed
    have empty : passSpans pattern text false = [] := by
      rw [List.eq_nil_iff_forall_not_mem]
      rintro ⟨start,stop⟩ member
      obtain ⟨nonempty,inside,whole,first,valid⟩ :=
        mem_passSpans (default_advancing classes pattern here) member
      have spared := clear pattern here _ _ (List.take_append_drop start _).symm
        (fresh.1 _ _ (span_cut here member))
      rw [List.length_take_of_le (by omega)] at spared
      exact Bool.false_ne_true (spared whole stop first valid).1
    have later := fresh.2
    rw [pass_uncut _ empty] at later
    rw [redact_cons,pass_uncut _ empty]
    exact ih rest later

/-- What a pass of a second redaction replaces begins directly behind a placeholder, and the second
redaction changes nothing exactly where no detector accepts a match there. -/
theorem second_pass_fresh (classes : Classes) (text : Str) :
    (∀ before pattern rest, defaultPatterns classes = before ++ pattern::rest → ∀ start stop,
      (start,stop) ∈ passSpans pattern
        (redact redactionPlaceholder false before (redact redactionPlaceholder false
          (defaultPatterns classes) text).1).1 false →
      redactionPlaceholder <:+
        (redact redactionPlaceholder false before (redact redactionPlaceholder false
          (defaultPatterns classes) text).1).1.take start) ∧
    ((redact redactionPlaceholder false (defaultPatterns classes) (redact redactionPlaceholder false
      (defaultPatterns classes) text).1).1 =
        (redact redactionPlaceholder false (defaultPatterns classes) text).1 ↔
      NothingBehind classes (redact redactionPlaceholder false (defaultPatterns classes)
        text).1) := by
  constructor
  · intro before pattern rest split start stop member
    have listed : pattern ∈ defaultPatterns classes := by
      rw [split]
      exact List.mem_append_right _ List.mem_cons_self
    exact cut_fresh split (second_fresh before _ split) (span_cut listed member)
  · constructor
    · intro same pattern listed left right shape _
      have unrecorded := cuts_self placeholder_filled (redact_cuts classes false _) same
      have placed :=
        @passSpans_placed pattern (redact redactionPlaceholder false
          (defaultPatterns classes) text).1 false
        (default_advancing classes pattern listed)
      rw [uncut_of_unrecorded unrecorded pattern listed] at placed
      cases placed with
      | rest spared =>
        apply spared _ (Nat.zero_le _)
        rw [shape]
        exact front_inside _ _
    · intro clear
      exact fresh_unchanged clear (fun _ member => member)
        (second_fresh _ [] (List.append_nil _).symm)

/-- A phone number behind another is found by the second redaction only. -/
theorem second_number_left :
    ¬ ∀ text, (redact redactionPlaceholder false (defaultPatterns asciiClasses)
    (redact redactionPlaceholder false (defaultPatterns asciiClasses) text).1).1 =
      (redact redactionPlaceholder false (defaultPatterns asciiClasses) text).1 := by
  intro settled
  have same := settled (lit "555-123-4567(555) 123-4567")
  revert same
  decide +kernel

end QuilrMcp.Guardrail.SecondPass
