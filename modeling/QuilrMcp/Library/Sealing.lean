import QuilrMcp.Library.Text
import Mathlib.Logic.Relation

/-! Text that is rewritten by putting a placeholder in place of some of its stretches, and text
that is sealed: no window of a given kind begins in it, whatever it is followed by. A window
without a code point of the placeholder cannot come out of rewriting, so sealing survives it. -/
namespace QuilrMcp.Library.Sealing
open Text

/-- The second text is the first with disjoint non-empty stretches of a kind replaced by the placeholder. -/
inductive Spans (Stretch : Str → Prop) (placeholder : Str) : Str → Str → Prop
  | nil : Spans Stretch placeholder [] []
  | keep (code : Nat) {text text' : Str} : Spans Stretch placeholder text text' →
      Spans Stretch placeholder (code::text) (code::text')
  | cut (stretch : Str) {text text' : Str} : stretch ≠ [] → Stretch stretch →
      Spans Stretch placeholder text text' →
      Spans Stretch placeholder (stretch ++ text) (placeholder ++ text')

/-- Stretches of any kind replaced, any number of times. -/
def Rewrites (placeholder : Str) : Str → Str → Prop :=
  Relation.ReflTransGen (Spans (fun _ => True) placeholder)

/-- No code point of the text is one of the placeholder's. -/
def Clean (placeholder text : Str) : Prop := ∀ code ∈ text, code ∉ placeholder

variable {placeholder : Str} {Stretch : Str → Prop}

theorem spans_refl (text : Str) : Spans Stretch placeholder text text := by
  induction text with
  | nil => exact .nil
  | cons code rest ih => exact .keep code ih

theorem spans_append {text text' more more' : Str} (first : Spans Stretch placeholder text text')
    (second : Spans Stretch placeholder more more') :
    Spans Stretch placeholder (text ++ more) (text' ++ more') := by
  induction first with
  | nil => exact second
  | keep code _ ih => exact .keep code ih
  | cut stretch filled kind _ ih =>
    rw [List.append_assoc,List.append_assoc]
    exact .cut stretch filled kind ih

theorem spans_mono {Kind : Str → Prop} (weaker : ∀ stretch, Stretch stretch → Kind stretch)
    {text text' : Str} (spans : Spans Stretch placeholder text text') :
    Spans Kind placeholder text text' := by
  induction spans with
  | nil => exact .nil
  | keep code _ ih => exact .keep code ih
  | cut stretch filled kind _ ih => exact .cut stretch filled (weaker stretch kind) ih

/-- Where no stretch of the kind is, nothing is replaced. -/
theorem spans_same {text text' : Str} (spans : Spans Stretch placeholder text text')
    (none_ : ∀ stretch, stretch <:+: text → ¬ Stretch stretch) : text' = text := by
  induction spans with
  | nil => rfl
  | keep code _ ih =>
    rw [ih (fun stretch inside => none_ stretch (inside.trans (List.suffix_cons _ _).isInfix))]
  | cut stretch _ kind _ _ => exact absurd kind (none_ stretch (List.prefix_append _ _).isInfix)

theorem rewrites_of_spans {text text' : Str} (spans : Spans Stretch placeholder text text') :
    Rewrites placeholder text text' :=
  .single (spans_mono (fun _ _ => trivial) spans)

private theorem spans_of_nil {text' : Str} (spans : Spans Stretch placeholder [] text') :
    text' = [] := by
  generalize empty : ([] : Str) = text at spans
  cases spans with
  | nil => rfl
  | keep code _ => contradiction
  | cut stretch filled _ _ => exact absurd (List.append_eq_nil_iff.mp empty.symm).1 filled

private theorem spans_to_nil (some_ : placeholder ≠ []) {text : Str}
    (spans : Spans Stretch placeholder text []) : text = [] := by
  generalize empty : ([] : Str) = text' at spans
  cases spans with
  | nil => rfl
  | keep code _ => contradiction
  | cut stretch filled _ _ => exact absurd (List.append_eq_nil_iff.mp empty.symm).1 some_

/-- A clean window of a text with a placeholder in it lies on one side of the placeholder. -/
theorem window_beside (some_ : placeholder ≠ []) {front rest left window right : Str}
    (filled : window ≠ []) (clean : Clean placeholder window)
    (shape : left ++ (window ++ right) = front ++ (placeholder ++ rest)) :
    (∃ middle, front = left ++ (window ++ middle) ∧ right = middle ++ (placeholder ++ rest)) ∨
      ∃ middle, left = front ++ (placeholder ++ middle) ∧ rest = middle ++ (window ++ right) := by
  rcases List.append_eq_append_iff.mp shape with ⟨more,whole,inner⟩ | ⟨more,whole,inner⟩
  · rcases List.append_eq_append_iff.mp inner with ⟨middle,ending,back⟩ | ⟨middle,ending,back⟩
    · exact Or.inl ⟨middle,by rw [whole,ending],back⟩
    · cases middle with
      | nil =>
        rw [List.append_nil] at ending
        exact Or.inl ⟨[],by rw [whole,ending,List.append_nil],back.symm⟩
      | cons code middle =>
        obtain ⟨first,placeholder',same⟩ := List.exists_cons_of_ne_nil some_
        rw [same] at back
        obtain ⟨equal,_⟩ := List.cons.inj back
        refine absurd (clean code (by rw [ending]; simp)) (not_not_intro ?_)
        rw [same,equal]
        exact List.mem_cons_self
  · rcases List.append_eq_append_iff.mp inner.symm with ⟨middle,ending,back⟩ | ⟨middle,ending,back⟩
    · cases middle with
      | nil => exact Or.inr ⟨[],by rw [whole,ending,List.append_nil,List.append_nil],back.symm⟩
      | cons code middle =>
        obtain ⟨first,window',same⟩ := List.exists_cons_of_ne_nil filled
        rw [same] at back
        obtain ⟨equal,_⟩ := List.cons.inj back
        refine absurd ?_ (clean code (by rw [same,equal]; exact List.mem_cons_self))
        rw [ending]
        simp
    · exact Or.inr ⟨middle,by rw [whole,ending],back⟩

/-- A clean window after rewriting stood there before, between stretches that became its surroundings. -/
theorem spans_window (some_ : placeholder ≠ []) {text text' : Str}
    (spans : Spans Stretch placeholder text text') (left window right : Str)
    (shape : text' = left ++ (window ++ right)) (filled : window ≠ [])
    (clean : Clean placeholder window) :
    ∃ left' right', text = left' ++ (window ++ right') ∧ Spans Stretch placeholder left' left ∧
      Spans Stretch placeholder right' right := by
  induction spans generalizing left window with
  | nil =>
    have := (List.append_eq_nil_iff.mp shape.symm).2
    exact absurd (List.append_eq_nil_iff.mp this).1 filled
  | @keep code text text' inner ih =>
    cases left with
    | cons first left =>
      obtain ⟨same,shape⟩ := List.cons.inj shape
      obtain ⟨left',right',whole,before,after⟩ := ih left window shape filled clean
      exact ⟨code::left',right',by rw [whole,List.cons_append],same ▸ .keep code before,after⟩
    | nil =>
      cases window with
      | nil => contradiction
      | cons first window =>
        obtain ⟨same,rest⟩ : code = first ∧ text' = window ++ right := List.cons.inj shape
        clear shape
        subst same
        by_cases last : window = []
        · subst last
          rw [List.nil_append] at rest
          subst rest
          exact ⟨[],text,rfl,.nil,inner⟩
        · have cleaner : Clean placeholder window := fun c member =>
            clean c (List.mem_cons_of_mem _ member)
          obtain ⟨left',right',whole,before,after⟩ := ih [] window rest last cleaner
          obtain rfl := spans_to_nil some_ before
          exact ⟨[],right',by rw [whole]; rfl,.nil,after⟩
  | @cut stretch text text' nonempty kind inner ih =>
    rcases @window_beside _ some_ [] _ _ _ _ filled clean shape.symm with ⟨middle,empty,
      _⟩ | ⟨middle,whole,rest⟩
    · exact absurd (List.append_eq_nil_iff.mp (List.append_eq_nil_iff.mp empty.symm).2).1 filled
    · obtain ⟨left',right',back,before,after⟩ := ih middle window rest filled clean
      refine ⟨stretch ++ left',right',by rw [back,List.append_assoc],?_,after⟩
      rw [whole]
      exact .cut stretch nonempty kind before

theorem rewrites_append {text text' more more' : Str} (first : Rewrites placeholder text text')
    (second : Rewrites placeholder more more') :
    Rewrites placeholder (text ++ more) (text' ++ more') :=
  .trans (first.lift (· ++ more) (fun _ _ spans => spans_append spans (spans_refl more)))
    (second.lift (text' ++ ·) (fun _ _ spans => spans_append (spans_refl text') spans))

theorem rewrites_of_nil {text' : Str} (rewrites : Rewrites placeholder [] text') : text' = [] := by
  induction rewrites with
  | refl => rfl
  | tail _ spans ih => exact spans_of_nil (ih ▸ spans)

theorem rewrites_to_nil (some_ : placeholder ≠ []) {text : Str}
    (rewrites : Rewrites placeholder text []) : text = [] := by
  induction rewrites using Relation.ReflTransGen.head_induction_on with
  | refl => rfl
  | head spans _ ih => exact spans_to_nil some_ (ih ▸ spans)

theorem rewrites_window (some_ : placeholder ≠ []) {text text' : Str}
    (rewrites : Rewrites placeholder text text') (left window right : Str)
    (shape : text' = left ++ (window ++ right)) (filled : window ≠ [])
    (clean : Clean placeholder window) :
    ∃ left' right', text = left' ++ (window ++ right') ∧ Rewrites placeholder left' left ∧
      Rewrites placeholder right' right := by
  induction rewrites generalizing left right with
  | refl => exact ⟨left,right,shape,.refl,.refl⟩
  | tail _ spans ih =>
    obtain ⟨left',right',whole,before,after⟩ :=
      spans_window some_ spans left window right shape filled clean
    obtain ⟨left'',right'',back,earlier,later⟩ := ih left' right' whole
    exact ⟨left'',right'',back,earlier.tail before,later.tail after⟩

/-- A clean text at the front of what rewriting gave stood at the front before. -/
theorem rewrites_front (some_ : placeholder ≠ []) {text front rest : Str}
    (rewrites : Rewrites placeholder text (front ++ rest)) (clean : Clean placeholder front) :
    ∃ rest', text = front ++ rest' ∧ Rewrites placeholder rest' rest := by
  by_cases filled : front = []
  · subst filled
    exact ⟨text,rfl,rewrites⟩
  · obtain ⟨left,right,whole,before,after⟩ :=
      rewrites_window some_ rewrites [] front rest rfl filled clean
    obtain rfl := rewrites_to_nil some_ before
    exact ⟨right,whole,after⟩

/-- No window begins in `out` when `rest` follows it. -/
def Sealed (Window : Str → Prop) (out rest : Str) : Prop :=
  ∀ before after window more, out = before ++ after → after ≠ [] → after ++ rest = window ++ more →
  ¬ Window window

variable {Window : Str → Prop}

theorem sealed_nil (rest : Str) : Sealed Window [] rest := by
  intro before after window more split filled _ _
  exact filled (List.append_eq_nil_iff.mp split.symm).2

theorem sealed_append {out more rest : Str} (first : Sealed Window out (more ++ rest))
    (second : Sealed Window more rest) :
    Sealed Window (out ++ more) rest := by
  intro before after window tail split filled shape found
  rcases List.append_eq_append_iff.mp split with ⟨middle,front,back⟩ | ⟨middle,front,back⟩
  · exact second middle after window tail back filled shape found
  · by_cases nothing : middle = []
    · subst nothing
      exact second [] more window tail rfl (by rw [back] at filled; exact filled)
        (by rw [back] at shape; exact shape) found
    · exact first before middle window tail front nothing
        (by rw [← shape,back,List.append_assoc]) found

theorem sealed_rewrites (some_ : placeholder ≠ [])
    (clean : ∀ window, Window window → Clean placeholder window) {out rest rest' : Str}
    (sealed : Sealed Window out rest) (rewrites : Rewrites placeholder rest rest') :
    Sealed Window out rest' := by
  intro before after window more split filled shape found
  rcases List.append_eq_append_iff.mp shape with ⟨middle,whole,back⟩ | ⟨middle,whole,_⟩
  · have cleanMiddle : Clean placeholder middle := fun code member =>
      clean window found code (by rw [whole]; exact List.mem_append_right _ member)
    obtain ⟨more',origin,_⟩ := rewrites_front some_ (back ▸ rewrites) cleanMiddle
    exact sealed before after window more' split filled
      (by rw [origin,whole,List.append_assoc]) found
  · exact sealed before after window (middle ++ rest) split filled
      (by rw [whole,List.append_assoc]) found

/-- A placeholder closes a sealed text: no clean window crosses it. -/
theorem sealed_closed (some_ : placeholder ≠ []) (clean : ∀ window, Window window → Clean placeholder window)
    {out rest : Str} (sealed : Sealed Window out rest) (more : Str) : Sealed Window out (placeholder ++ more) := by
  intro before after window tail split filled shape found
  rcases List.append_eq_append_iff.mp shape with ⟨middle,whole,back⟩ | ⟨middle,whole,_⟩
  · cases middle with
    | nil => exact sealed before after window rest split filled (by rw [whole,List.append_nil]) found
    | cons code middle =>
      obtain ⟨first,placeholder',same⟩ := List.exists_cons_of_ne_nil some_
      rw [same] at back
      obtain ⟨equal,_⟩ := List.cons.inj back
      refine clean window found first ?_ (by rw [same]; exact List.mem_cons_self)
      rw [whole,equal]
      simp
  · exact sealed before after window (middle ++ rest) split filled (by rw [whole,List.append_assoc]) found

theorem sealed_placeholder (clean : ∀ window, Window window → window ≠ [] ∧
    Clean placeholder window) (rest : Str) :
    Sealed Window placeholder rest := by
  intro before after window more split filled shape found
  obtain ⟨some_,apart⟩ := clean window found
  obtain ⟨code,tail,same⟩ := List.exists_cons_of_ne_nil filled
  obtain ⟨first,window',same'⟩ := List.exists_cons_of_ne_nil some_
  rw [same,same'] at shape
  obtain ⟨equal,_⟩ := List.cons.inj shape
  refine apart first (by rw [same']; exact List.mem_cons_self) ?_
  rw [split,same,equal]
  simp

/-- A text sealed at its end contains no window but the empty one. -/
theorem sealed_infix {out rest window : Str} (sealed : Sealed Window out rest)
    (inside : window <:+: out) (filled : window ≠ []) : ¬ Window window := by
  obtain ⟨before,after,whole⟩ := inside
  exact sealed before (window ++ after) window (after ++ rest) (by rw [← whole,List.append_assoc])
    (fun empty => filled (List.append_eq_nil_iff.mp empty).1) (List.append_assoc ..)

end QuilrMcp.Library.Sealing
