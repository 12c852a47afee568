import QuilrMcp.Guardrail.Redactor
import QuilrMcp.Library.Sealing

/-! What the passes do to a text: they put the placeholder in place of matches, and a window that
is still there afterwards stood at a place where the pass found nothing to replace. -/
namespace QuilrMcp.Guardrail.Passes
open Library.Text
open Library.Search
open Library.Sealing
open Patterns
open Redactor

variable {pattern : Pattern} {placeholder text : Str} {protectTail : Bool}

private theorem backOff_some {start floor fuel stop accepted : Nat} (above : start ≤ floor)
    (found : backOff pattern text start floor fuel stop = some accepted) :
    ∃ limit, start ≤ limit ∧ accepted ∈ ends pattern.expression (text.take limit) start := by
  induction fuel generalizing stop with
  | zero => contradiction
  | succ fuel ih =>
    rw [backOff] at found
    split_ifs at found with high
    cases matched : matchAt pattern.expression text start stop with
    | none => rw [matched] at found; contradiction
    | some e =>
      simp only [matched] at found
      split_ifs at found with ok
      · cases found
        exact ⟨stop,by omega,List.mem_of_mem_head? matched⟩
      · exact ih found

/-- An accepted end is the end of a match in the text up to some limit. -/
theorem validatedEnd_mem {start stop accepted : Nat} (inside : start ≤ text.length)
    (first : (ends pattern.expression text start).head? = some stop)
    (found : validatedEnd pattern text start stop = some accepted) :
    ∃ limit, start ≤ limit ∧ accepted ∈ ends pattern.expression (text.take limit) start := by
  rw [validatedEnd] at found
  cases validator : pattern.validate with
  | none =>
    simp only [validator] at found
    split_ifs at found
    cases found
    refine ⟨text.length,inside,?_⟩
    rw [List.take_length]
    exact List.mem_of_mem_head? first
  | some validate =>
    simp only [validator] at found
    exact backOff_some (by omega) found

theorem validatedEnd_bound {start stop accepted : Nat} (inside : start ≤ text.length)
    (first : (ends pattern.expression text start).head? = some stop)
    (found : validatedEnd pattern text start stop = some accepted) :
    start + minLength pattern.expression ≤ accepted ∧ accepted ≤ text.length := by
  obtain ⟨limit,low,member⟩ := validatedEnd_mem inside first found
  have size : (text.take limit).length = min limit text.length := List.length_take
  have bound := ends_bound pattern.expression (text.take limit) start (by omega) accepted member
  omega

section Places
variable (pattern : Pattern) (text : Str) (protectTail : Bool)

/-- Where the stretches that a pass replaces begin and end. -/
def spansFrom : Nat → Nat → List (Nat × Nat)
  | 0, _ => []
  | fuel+1, searchFrom =>
    if searchFrom ≤ text.length then
      match search pattern.expression text searchFrom with
      | none => []
      | some (start,stop) =>
        match validatedEnd pattern text start stop with
        | none => spansFrom fuel (start + 1)
        | some stop =>
          if protectTail && stop == text.length then spansFrom fuel (start + 1)
          else (start,stop)::spansFrom fuel (if start < stop then stop else start + 1)
    else []

def passSpans : List (Nat × Nat) := spansFrom pattern text protectTail (text.length + 2) 0

/-- The text from `position` on with the placeholder in place of the stretches. -/
def replaceSpans (placeholder : Str) : Nat → List (Nat × Nat) → Str
  | position, [] => text.drop position
  | position, (start,stop)::spans => slice text position start ++ placeholder ++
      replaceSpans placeholder stop spans

private theorem passFrom_replaces (placeholder : Str) (fuel position searchFrom : Nat) :
    passFrom pattern placeholder text protectTail fuel position searchFrom =
      (replaceSpans text placeholder position (spansFrom pattern text protectTail fuel searchFrom),
        (spansFrom pattern text protectTail fuel searchFrom).length) := by
  induction fuel generalizing position searchFrom with
  | zero => rfl
  | succ fuel ih =>
    rw [passFrom,spansFrom]
    split_ifs with within
    · cases search pattern.expression text searchFrom with
      | none => rfl
      | some pair =>
        obtain ⟨start,stop⟩ := pair
        cases valid : validatedEnd pattern text start stop with
        | none =>
          simp only [valid]
          exact ih position (start + 1)
        | some accepted =>
          simp only [valid]
          split_ifs with held
          · exact ih position (start + 1)
          · rw [ih,replaceSpans,List.length_cons]
          · rw [ih,replaceSpans,List.length_cons]
    · rfl

/-- A pass puts the placeholder in these places and counts them. -/
theorem pass_replaces (placeholder : Str) : pass pattern placeholder text protectTail =
    (replaceSpans text placeholder 0 (passSpans pattern text protectTail),
      (passSpans pattern text protectTail).length) :=
  passFrom_replaces pattern text protectTail placeholder _ 0 0

end Places

/-- A place where the pass has nothing to replace: no match begins there, the validator accepts
none, or the one it accepts reaches the protected end. -/
def Spared (pattern : Pattern) (text : Str) (protectTail : Bool) (start : Nat) : Prop :=
  ∀ stop accepted, (ends pattern.expression text start).head? = some stop →
    validatedEnd pattern text start stop = some accepted → protectTail = true ∧
    accepted = text.length

private theorem spared_of_empty {start : Nat} (empty : ends pattern.expression text start = []) :
    Spared pattern text protectTail start := by
  intro stop accepted first
  rw [empty] at first
  contradiction

/-- A stretch of the text that the pass replaces. -/
def Replaced (pattern : Pattern) (text stretch : Str) : Prop :=
  ∃ start stop accepted, start ≤ text.length ∧
  (ends pattern.expression text start).head? = some stop ∧
    validatedEnd pattern text start stop = some accepted ∧ stretch = slice text start accepted

private theorem slice_filled {start stop : Nat} (order : start < stop)
    (inside : stop ≤ text.length) :
    slice text start stop ≠ [] := by
  intro empty
  have long : (slice text start stop).length = stop - start := length_slice inside
  rw [empty,List.length_nil] at long
  omega

private theorem spans_stretch {Stretch : Str → Prop} {start stop : Nat} (order : start < stop)
    (inside : stop ≤ text.length) {rest : Str} (kind : Stretch (slice text start stop))
    (later : Spans Stretch placeholder (text.drop stop) rest) :
    Spans Stretch placeholder (text.drop start) (placeholder ++ rest) := by
  rw [drop_slice (Nat.le_of_lt order) inside]
  exact .cut _ (slice_filled order inside) kind later

/-- What a pass from `position` on leaves: the text with stretches replaced, in which a clean window
stood before at a place that the pass spared. -/
def Leaves (pattern : Pattern) (placeholder text : Str) (protectTail : Bool) (position : Nat)
    (result : Str) : Prop :=
  Spans (Replaced pattern text) placeholder (text.drop position) result ∧
  ∀ left window right, window ≠ [] → Clean placeholder window → result = left ++ (window ++ right) →
    ∃ left' right', text.drop position = left' ++ (window ++ right') ∧
    Spans (Replaced pattern text) placeholder left' left ∧
      Spans (Replaced pattern text) placeholder right' right ∧
      Spared pattern text protectTail (position + left'.length)

private theorem leaves_rest {position : Nat} (inside : position ≤ text.length)
    (passed : ∀ i, position ≤ i → i ≤ text.length → Spared pattern text protectTail i) :
    Leaves pattern placeholder text protectTail position (text.drop position) := by
  refine ⟨spans_refl _,fun left window right _ _ shape => ⟨left,right,shape,spans_refl _,
    spans_refl _,?_⟩⟩
  have size := congrArg List.length shape
  rw [List.length_drop,List.length_append] at size
  exact passed _ (by omega) (by omega)

private theorem leaves_cut (some_ : placeholder ≠ []) {position start stop : Nat} {rest : Str}
    (order : position ≤ start) (nonempty : start < stop) (inside : stop ≤ text.length)
    (kind : Replaced pattern text (slice text start stop))
    (passed : ∀ i, position ≤ i → i < start → Spared pattern text protectTail i)
    (later : Leaves pattern placeholder text protectTail stop rest) :
    Leaves pattern placeholder text protectTail position (slice text position start ++
      placeholder ++ rest) := by
  have split := drop_slice order (show start ≤ text.length by omega)
  have size : (slice text position start).length = start - position := length_slice (by omega)
  have stretch := spans_stretch nonempty inside kind later.1
  rw [List.append_assoc]
  refine ⟨split ▸ spans_append (spans_refl _) stretch,
    fun left window right filled clean shape => ?_⟩
  rcases window_beside some_ filled clean shape.symm with ⟨middle,before,
    after⟩ | ⟨middle,before,after⟩
  · refine ⟨left,middle ++ text.drop start,?_,spans_refl _,?_,?_⟩
    · rw [split,before,List.append_assoc,List.append_assoc]
    · rw [after]
      exact spans_append (spans_refl middle) stretch
    · have shorter := congrArg List.length before
      have some_ := List.length_pos_of_ne_nil filled
      rw [List.length_append,List.length_append] at shorter
      exact passed _ (by omega) (by omega)
  · obtain ⟨left',right',whole,front,back,spared⟩ := later.2 middle window right filled clean after
    have span := drop_slice (Nat.le_of_lt nonempty) inside
    refine ⟨slice text position start ++ (slice text start stop ++ left'),right',?_,?_,back,?_⟩
    · rw [split,span,whole]
      simp only [List.append_assoc]
    · rw [before]
      exact spans_append (spans_refl _) (.cut _ (slice_filled nonempty inside) kind front)
    · have long : (slice text start stop).length = stop - start := length_slice inside
      rw [List.length_append,List.length_append,size,long]
      rw [show position + (start - position + (stop - start + left'.length)) = stop +
        left'.length by omega]
      exact spared

/-- The spans of a pass from `position` on: each is what the validator accepts at its start, and at the
places between them there is nothing to replace. -/
inductive Placed (pattern : Pattern) (text : Str) (protectTail : Bool) :
    Nat → List (Nat × Nat) → Prop
  | rest {position : Nat} :
      (∀ i, position ≤ i → i ≤ text.length → Spared pattern text protectTail i) →
      Placed pattern text protectTail position []
  | span {position start whole stop : Nat} {spans : List (Nat × Nat)} :
      position ≤ start → start < stop → stop ≤ text.length →
      (ends pattern.expression text start).head? = some whole →
      validatedEnd pattern text start whole = some stop →
      (∀ i, position ≤ i → i < start → Spared pattern text protectTail i) →
      Placed pattern text protectTail stop spans →
      Placed pattern text protectTail position ((start,stop)::spans)

private theorem spansFrom_placed (advances : 0 < minLength pattern.expression)
    (fuel position searchFrom : Nat) (order : position ≤ searchFrom)
    (passed : ∀ i, position ≤ i → i < searchFrom → Spared pattern text protectTail i)
    (enough : text.length + 1 < fuel + searchFrom) :
    Placed pattern text protectTail position
      (spansFrom pattern text protectTail fuel searchFrom) := by
  induction fuel generalizing position searchFrom with
  | zero => exact .rest (fun i low high => passed i low (by omega))
  | succ fuel ih =>
    rw [spansFrom]
    split_ifs with within
    · cases found : search pattern.expression text searchFrom with
      | none =>
        refine .rest (fun i low high => ?_)
        by_cases seen : i < searchFrom
        · exact passed i low seen
        · exact spared_of_empty (search_none found i (by omega) high)
      | some pair =>
        obtain ⟨start,stop⟩ := pair
        obtain ⟨after,startInside,first,empty⟩ := search_some found
        have before (i : Nat) (low : position ≤ i) (high : i < start) : Spared pattern text
          protectTail i := by
          by_cases seen : i < searchFrom
          · exact passed i low seen
          · exact spared_of_empty (empty i (by omega) high)
        have resumed (spared : Spared pattern text protectTail start) :=
          ih position (start + 1) (by omega)
            (fun i low high => if same : i = start then same ▸ spared else before i low (by omega))
            (by omega)
        cases valid : validatedEnd pattern text start stop with
        | none =>
          simp only [valid]
          refine resumed (fun stop' accepted first' found' => ?_)
          rw [first] at first'
          cases first'
          rw [valid] at found'
          contradiction
        | some accepted =>
          have bound := validatedEnd_bound startInside first valid
          simp only [valid]
          split_ifs with held
          · refine resumed (fun stop' accepted' first' found' => ?_)
            rw [first] at first'
            cases first'
            rw [valid] at found'
            cases found'
            simpa using held
          · exact .span (by omega) (by omega) bound.2 first valid before
              (ih accepted accepted (Nat.le_refl _) (fun i low high =>
                absurd low (by omega)) (by omega))
          · omega
    · exact .rest (fun i low high => passed i low (by omega))

theorem passSpans_placed (advances : 0 < minLength pattern.expression) :
    Placed pattern text protectTail 0 (passSpans pattern text protectTail) :=
  spansFrom_placed advances _ 0 0 (Nat.le_refl _) (fun i _ high =>
    absurd high (by omega)) (by omega)

private theorem placed_mem {position : Nat} {spans : List (Nat × Nat)}
    (placed : Placed pattern text protectTail position spans) {start stop : Nat}
    (member : (start,stop) ∈ spans) : start < stop ∧ stop ≤ text.length ∧
      ∃ whole, (ends pattern.expression text start).head? = some whole ∧
      validatedEnd pattern text start whole = some stop := by
  induction placed with
  | rest _ => contradiction
  | span _ nonempty within first valid _ _ ih =>
    rcases List.mem_cons.mp member with same | later
    · obtain ⟨rfl,rfl⟩ := Prod.mk.inj same
      exact ⟨nonempty,within,_,first,valid⟩
    · exact ih later

theorem mem_passSpans (advances : 0 < minLength pattern.expression) {start stop : Nat}
    (member : (start,stop) ∈ passSpans pattern text protectTail) :
    start < stop ∧ stop ≤ text.length ∧
      ∃ whole, (ends pattern.expression text start).head? = some whole ∧
      validatedEnd pattern text start whole = some stop :=
  placed_mem (passSpans_placed advances) member

private theorem placed_leaves (some_ : placeholder ≠ []) {position : Nat} {spans : List (Nat × Nat)}
    (placed : Placed pattern text protectTail position spans) (inside : position ≤ text.length) :
    Leaves pattern placeholder text protectTail position
      (replaceSpans text placeholder position spans) := by
  induction placed with
  | rest spared => exact leaves_rest inside spared
  | span order nonempty within first valid spared _ ih =>
    exact leaves_cut some_ order nonempty within ⟨_,_,_,by omega,first,valid,rfl⟩ spared (ih within)

theorem pass_leaves (some_ : placeholder ≠ []) (advances : 0 < minLength pattern.expression) :
    Leaves pattern placeholder text protectTail 0
      (pass pattern placeholder text protectTail).1 := by
  rw [pass_replaces]
  exact placed_leaves some_ (passSpans_placed advances) (Nat.zero_le _)

theorem pass_spans (some_ : placeholder ≠ []) (advances : 0 < minLength pattern.expression) :
    Spans (Replaced pattern text) placeholder text (pass pattern placeholder text protectTail).1 :=
  (pass_leaves some_ advances).1

theorem pass_window (some_ : placeholder ≠ []) (advances : 0 < minLength pattern.expression)
    {left window right : Str} (filled : window ≠ []) (clean : Clean placeholder window)
    (shape : (pass pattern placeholder text protectTail).1 = left ++ (window ++ right)) :
    ∃ left' right', text = left' ++ (window ++ right') ∧
    Spans (Replaced pattern text) placeholder left' left ∧
    Spans (Replaced pattern text) placeholder right' right ∧
      Spared pattern text protectTail left'.length := by
  obtain ⟨left',right',whole,before,after,spared⟩ :=
    (pass_leaves some_ advances).2 left window right filled clean shape
  rw [Nat.zero_add] at spared
  exact ⟨left',right',whole,before,after,spared⟩

/-- No match of a pattern is empty. -/
def Advancing (patterns : List Pattern) : Prop :=
  ∀ pattern ∈ patterns, 0 < minLength pattern.expression

theorem redact_nil (text : Str) : (redact placeholder protectTail [] text).1 = text := rfl

theorem redact_cons (patterns : List Pattern) (text : Str) :
    (redact placeholder protectTail (pattern::patterns) text).1 =
    (redact placeholder protectTail patterns (pass pattern placeholder text protectTail).1).1 := rfl

theorem redact_append (patterns more : List Pattern) (text : Str) :
    (redact placeholder protectTail (patterns ++ more) text).1 =
    (redact placeholder protectTail more (redact placeholder protectTail patterns text).1).1 := by
  induction patterns generalizing text with
  | nil => rfl
  | cons pattern patterns ih => exact ih _

theorem default_minLength (classes : Library.Unicode.Classes) :
    (defaultPatterns classes).map (fun pattern => minLength pattern.expression) =
    [6,11,13,11,20] := rfl

theorem default_advancing (classes : Library.Unicode.Classes) :
    Advancing (defaultPatterns classes) := by
  intro pattern member
  have listed := List.mem_map_of_mem (f := fun pattern => minLength pattern.expression) member
  rw [default_minLength] at listed
  simp only [List.mem_cons,List.not_mem_nil,or_false] at listed
  omega

theorem redact_rewrites (some_ : placeholder ≠ []) (protectTail : Bool) (patterns : List Pattern)
    (advancing : Advancing patterns) (text : Str) :
    Rewrites placeholder text (redact placeholder protectTail patterns text).1 := by
  induction patterns generalizing text with
  | nil => exact .refl
  | cons pattern patterns ih =>
    have first : Spans (Replaced pattern text) placeholder text
      (pass pattern placeholder text protectTail).1 :=
      pass_spans some_ (advancing pattern List.mem_cons_self)
    exact (rewrites_of_spans first).trans
      (ih (fun p member => advancing p (List.mem_cons_of_mem _ member)) _)

/-- A clean window that is left after all passes stood, when its pattern's turn came, at a place
that this pass spared. -/
theorem redact_window (some_ : placeholder ≠ []) (patterns : List Pattern)
    (advancing : Advancing patterns) (member : pattern ∈ patterns) {left window right : Str}
    (filled : window ≠ []) (clean : Clean placeholder window)
    (shape : (redact placeholder protectTail patterns text).1 = left ++ (window ++ right)) :
    ∃ left' right', Rewrites placeholder text (left' ++ (window ++ right')) ∧
    Rewrites placeholder left' left ∧
      Rewrites placeholder right' right ∧
      Spared pattern (left' ++ (window ++ right')) protectTail left'.length := by
  induction patterns generalizing text with
  | nil => exact absurd member List.not_mem_nil
  | cons first patterns ih =>
    have advance := advancing first List.mem_cons_self
    have rest : Advancing patterns := fun p member => advancing p (List.mem_cons_of_mem _ member)
    rcases List.mem_cons.mp member with rfl | later
    · obtain ⟨left',right',whole,before,after⟩ :=
        rewrites_window some_ (redact_rewrites some_ protectTail patterns rest _) left window right
          shape filled clean
      obtain ⟨left'',right'',back,earlier,latter,spared⟩ :=
        pass_window some_ advance filled clean whole
      exact ⟨left'',right'',back ▸ .refl,(rewrites_of_spans earlier).trans before,
        (rewrites_of_spans latter).trans after,back ▸ spared⟩
    · obtain ⟨left',right',whole,before,after,spared⟩ := ih rest later shape
      exact ⟨left',right',(rewrites_of_spans (pass_spans some_ advance)).trans whole,
        before,after,spared⟩

private theorem earliestUnfinished_le (text : Str) (hits : List Hit) (earliest : Nat) :
    earliestUnfinished text earliest hits ≤ earliest ∧
      ∀ hit ∈ hits, hit.unfinished text → earliestUnfinished text earliest hits ≤ hit.start := by
  induction hits generalizing earliest with
  | nil => exact ⟨Nat.le_refl _,fun _ member => absurd member List.not_mem_nil⟩
  | cons first hits ih =>
    rw [earliestUnfinished,List.foldl_cons]
    obtain ⟨below,all⟩ :=
      ih (if first.isPartial || first.stop == text.length then min earliest first.start
        else earliest)
    refine ⟨Nat.le_trans below ?_,fun hit member unfinished => ?_⟩
    · split_ifs <;> omega
    · rcases List.mem_cons.mp member with rfl | later
      · refine Nat.le_trans below ?_
        have held : (hit.isPartial || hit.stop == text.length) = true := by
          simpa [Hit.unfinished] using unfinished
        rw [if_pos held]
        exact Nat.min_le_right _ _
      · exact all hit later unfinished

private theorem holdback_from (text : Str) (patterns : List Pattern) (earliest : Nat) :
    patterns.foldl (fun earliest pattern => earliestUnfinished text earliest
      (finditer pattern.expression text)) earliest ≤ earliest ∧
      ∀ pattern ∈ patterns, ∀ hit ∈ finditer pattern.expression text, hit.unfinished text →
        patterns.foldl (fun earliest pattern => earliestUnfinished text earliest
          (finditer pattern.expression text)) earliest ≤ hit.start := by
  induction patterns generalizing earliest with
  | nil => exact ⟨Nat.le_refl _,fun _ member => absurd member List.not_mem_nil⟩
  | cons first patterns ih =>
    rw [List.foldl_cons]
    obtain ⟨below,all⟩ := ih (earliestUnfinished text earliest (finditer first.expression text))
    obtain ⟨least,hits⟩ := earliestUnfinished_le text (finditer first.expression text) earliest
    refine ⟨Nat.le_trans below least,fun pattern member hit found unfinished => ?_⟩
    rcases List.mem_cons.mp member with rfl | later
    · exact Nat.le_trans below (hits hit found unfinished)
    · exact all pattern later hit found unfinished

theorem holdbackIndex_le_length (patterns : List Pattern) (text : Str) :
    holdbackIndex patterns text ≤ text.length :=
  (holdback_from text patterns text.length).1

theorem holdbackIndex_le (patterns : List Pattern) (text : Str)
    (member : pattern ∈ patterns) {hit : Hit} (found : hit ∈ finditer pattern.expression text)
    (unfinished : hit.unfinished text) :
    holdbackIndex patterns text ≤ hit.start :=
  (holdback_from text patterns text.length).2 pattern member hit found unfinished

section Stream
variable (options : Options)

/-- The text that a feed redacts, given what suppression leaves of the chunk. -/
def settled (buffer rest : Str) : Str :=
  (redact options.placeholder true options.patterns (buffer ++ rest)).1

/-- How a feed that absorbs `rest` ends: the split, or the placeholder of the fail-closed path. -/
inductive Absorbed (buffer rest : Str) : StreamRedactor → Str → Prop
  | split (after : StreamRedactor) :
      after.buffer = (settled options buffer rest).drop (holdbackIndex options.patterns
        (settled options buffer rest)) →
      after.suppressing = false → after.buffer.length ≤ options.maxHoldback →
      Absorbed buffer rest after ((settled options buffer rest).take (holdbackIndex options.patterns
        (settled options buffer rest)))
  | overflow (after : StreamRedactor) : after.buffer = [] → after.suppressing = true →
      options.maxHoldback < ((settled options buffer rest).drop (holdbackIndex options.patterns
        (settled options buffer rest))).length →
      Absorbed buffer rest after
        ((settled options buffer rest).take (holdbackIndex options.patterns
          (settled options buffer rest)) ++ options.placeholder)

private theorem absorb_absorbed (buffer : Str) (stats : RedactionStats) (rest : Str) :
    Absorbed options buffer rest (StreamRedactor.absorb options ⟨buffer,false,stats⟩ rest).1
      (StreamRedactor.absorb options ⟨buffer,false,stats⟩ rest).2 := by
  rw [StreamRedactor.absorb]
  simp only
  split_ifs with long
  · exact .overflow _ rfl rfl long
  · exact .split _ rfl rfl (Nat.le_of_not_lt long)

/-- The class of `OVERLONG_RUN`. -/
def continues (classes : Library.Unicode.Classes) (code : Nat) : Bool :=
  classes.isWord code || (lit ".%+@-").contains code

private theorem consumed_run (text : Str) :
    (matchAt (overlongRun options.classes) text 0 text.length).getD 0 =
    (text.takeWhile (continues options.classes)).length :=
      matchAt_run (continues options.classes) text

/-- Suppression drops the longest run at the start of a chunk. -/
theorem dropped_rest (self : StreamRedactor) (text : Str) :
    (self.dropSuppressedPrefix options text).2 = text.dropWhile (continues options.classes) := by
  rw [StreamRedactor.dropSuppressedPrefix,consumed_run,← drop_run]
  simp only
  split_ifs with whole
  · rw [whole,List.drop_length]
  · rfl

theorem dropped_left (self : StreamRedactor) (text : Str)
    (left : text.dropWhile (continues options.classes) ≠ []) :
    ∃ stats, (self.dropSuppressedPrefix options text).1 = ⟨self.buffer,false,stats⟩ := by
  rw [StreamRedactor.dropSuppressedPrefix,consumed_run]
  simp only
  split_ifs with whole
  · rw [← drop_run,whole,List.drop_length] at left
    contradiction
  · exact ⟨_,rfl⟩

theorem dropped_whole (self : StreamRedactor) (text : Str)
    (nothing : text.dropWhile (continues options.classes) = []) :
    ∃ stats, (self.dropSuppressedPrefix options text).1 = ⟨self.buffer,self.suppressing,stats⟩ := by
  rw [← drop_run,List.drop_eq_nil_iff] at nothing
  have short : (text.takeWhile (continues options.classes)).length ≤ text.length :=
    (List.takeWhile_prefix _).length_le
  rw [StreamRedactor.dropSuppressedPrefix,consumed_run]
  simp only
  rw [if_pos (Nat.le_antisymm short nothing)]
  exact ⟨_,rfl⟩

/-- What suppression leaves of a chunk. -/
def remainder (self : StreamRedactor) (chunk : Str) : Str :=
  if self.suppressing then (self.dropSuppressedPrefix options chunk).2 else chunk

theorem remainder_eq (self : StreamRedactor) (chunk : Str) : remainder options self chunk =
    if self.suppressing then chunk.dropWhile (continues options.classes) else chunk := by
  rw [remainder,dropped_rest]

theorem remainder_suffix (self : StreamRedactor) (chunk : Str) :
    remainder options self chunk <:+ chunk := by
  rw [remainder_eq]
  split_ifs
  · exact List.dropWhile_suffix _
  · exact List.suffix_refl _

/-- A feed drops its chunk, or absorbs what suppression leaves of it. -/
theorem feed_eq (self : StreamRedactor) (chunk : Str) :
    (remainder options self chunk = [] ∧ (self.feed options chunk).2 = [] ∧
        (self.feed options chunk).1.buffer = self.buffer ∧
        (self.feed options chunk).1.suppressing = self.suppressing) ∨
      (remainder options self chunk ≠ [] ∧ ∃ stats,
        self.feed options chunk = StreamRedactor.absorb options ⟨self.buffer,false,stats⟩
          (remainder options self chunk)) := by
  rw [StreamRedactor.feed]
  by_cases empty : chunk = []
  · subst empty
    exact Or.inl ⟨List.suffix_nil.mp (remainder_suffix options self []),rfl,rfl,rfl⟩
  · have filled : ¬ chunk.isEmpty = true := by rwa [List.isEmpty_iff]
    obtain ⟨buffer,suppressing,stats⟩ := self
    rw [if_neg filled,remainder_eq]
    simp only [dropped_rest]
    generalize (⟨stats.counts,stats.charactersIn + chunk.length,_,_,_⟩ : RedactionStats) = counted
    cases suppressing with
    | false =>
      simp only [Bool.false_eq_true,if_false]
      exact Or.inr ⟨empty,counted,rfl⟩
    | true =>
      simp only [if_true]
      by_cases nothing : chunk.dropWhile (continues options.classes) = []
      · obtain ⟨stats,still⟩ := dropped_whole options ⟨buffer,true,counted⟩ chunk nothing
        rw [if_pos (by rw [nothing,List.isEmpty_nil]),still,dropped_rest,nothing]
        exact Or.inl ⟨rfl,rfl,rfl,rfl⟩
      · obtain ⟨stats,ended⟩ := dropped_left options ⟨buffer,true,counted⟩ chunk nothing
        rw [if_neg (by rwa [List.isEmpty_iff]),ended]
        exact Or.inr ⟨nothing,stats,rfl⟩

theorem feed_cases (self : StreamRedactor) (chunk : Str) :
    (remainder options self chunk = [] ∧ (self.feed options chunk).2 = [] ∧
        (self.feed options chunk).1.buffer = self.buffer ∧
        (self.feed options chunk).1.suppressing = self.suppressing) ∨
      (remainder options self chunk ≠ [] ∧
        Absorbed options self.buffer (remainder options self chunk) (self.feed options chunk).1
          (self.feed options chunk).2) := by
  rcases feed_eq options self chunk with dropped | ⟨left,stats,fed⟩
  · exact Or.inl dropped
  · rw [fed]
    exact Or.inr ⟨left,absorb_absorbed options self.buffer stats _⟩

theorem remainder_running (self : StreamRedactor) (running : self.suppressing = false)
    (chunk : Str) :
    remainder options self chunk = chunk := by
  rw [remainder,running,if_neg Bool.false_ne_true]

theorem flush_out (self : StreamRedactor) : (self.flush options).2 =
    (redact options.placeholder false options.patterns self.buffer).1 := rfl

theorem flush_buffer (self : StreamRedactor) : (self.flush options).1.buffer = [] := rfl

end Stream

end QuilrMcp.Guardrail.Passes
