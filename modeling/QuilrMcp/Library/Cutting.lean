import QuilrMcp.Library.Text
import Mathlib.Tactic.Common

/-! Text with counted stretches cut out, a placeholder standing for each. Cutting again where no
placeholder is touched is one cutting of the first text, and the counts add up. -/
namespace QuilrMcp.Library.Cutting
open Text

/-- The second text is the first with so many disjoint non-empty stretches of a kind replaced by the placeholder. -/
inductive Cuts (Stretch : Str → Prop) (placeholder : Str) : Nat → Str → Str → Prop
  | nil : Cuts Stretch placeholder 0 [] []
  | keep (code : Nat) {n : Nat} {text text' : Str} : Cuts Stretch placeholder n text text' →
      Cuts Stretch placeholder n (code::text) (code::text')
  | cut (stretch : Str) {n : Nat} {text text' : Str} : stretch ≠ [] → Stretch stretch →
      Cuts Stretch placeholder n text text' → Cuts Stretch placeholder (n + 1) (stretch ++ text)
        (placeholder ++ text')

variable {placeholder : Str} {Stretch : Str → Prop} {n m : Nat} {text text' more more' : Str}

theorem cuts_refl (text : Str) : Cuts Stretch placeholder 0 text text := by
  induction text with
  | nil => exact .nil
  | cons code rest ih => exact .keep code ih

theorem cuts_append (first : Cuts Stretch placeholder n text text')
    (second : Cuts Stretch placeholder m more more') :
    Cuts Stretch placeholder (n + m) (text ++ more) (text' ++ more') := by
  induction first with
  | nil => rwa [Nat.zero_add]
  | keep code _ ih => exact .keep code ih
  | @cut stretch n text text' filled kind _ ih =>
    rw [List.append_assoc,List.append_assoc,Nat.add_right_comm]
    exact .cut stretch filled kind ih

theorem cuts_mono {Kind : Str → Prop} (weaker : ∀ stretch, Stretch stretch → Kind stretch)
    (cuts : Cuts Stretch placeholder n text text') : Cuts Kind placeholder n text text' := by
  induction cuts with
  | nil => exact .nil
  | keep code _ ih => exact .keep code ih
  | cut stretch filled kind _ ih => exact .cut stretch filled (weaker stretch kind) ih

theorem cuts_zero (cuts : Cuts Stretch placeholder n text text') (uncut : n = 0) :
    text' = text := by
  induction cuts with
  | nil => rfl
  | keep code _ ih => rw [ih uncut]
  | cut => contradiction

theorem cuts_none (never : ∀ stretch, ¬ Stretch stretch)
    (cuts : Cuts Stretch placeholder n text text') : text' = text := by
  induction cuts with
  | nil => rfl
  | keep code _ ih => rw [ih]
  | cut stretch _ kind _ _ => exact absurd kind (never stretch)

theorem cuts_to_nil (some_ : placeholder ≠ []) (cuts : Cuts Stretch placeholder n text []) :
    text = [] ∧ n = 0 := by
  generalize empty : ([] : Str) = text' at cuts
  cases cuts with
  | nil => exact ⟨rfl,rfl⟩
  | keep code _ => contradiction
  | cut stretch _ _ _ => exact absurd (List.append_eq_nil_iff.mp empty.symm).1 some_

theorem cuts_of_nil (cuts : Cuts Stretch placeholder n [] text') : text' = [] := by
  generalize empty : ([] : Str) = text at cuts
  cases cuts with
  | nil => rfl
  | keep code _ => contradiction
  | cut stretch filled _ _ => exact absurd (List.append_eq_nil_iff.mp empty.symm).1 filled

theorem cuts_mem (cuts : Cuts Stretch placeholder n text text') (cut : n ≠ 0) :
    ∀ code ∈ placeholder, code ∈ text' := by
  induction cuts with
  | nil => exact absurd rfl cut
  | keep code _ ih => exact fun other member => List.mem_cons_of_mem _ (ih cut other member)
  | cut => exact fun other member => List.mem_append_left _ member

/-- What holds of every code point of the text and of the placeholder holds of every one that is left. -/
theorem cuts_each {P : Nat → Prop} (placed : ∀ code ∈ placeholder, P code)
    (cuts : Cuts Stretch placeholder n text text') (each : ∀ code ∈ text, P code) :
    ∀ code ∈ text', P code := by
  induction cuts with
  | nil => exact each
  | keep code _ ih =>
    obtain ⟨first,later⟩ := List.forall_mem_cons.mp each
    exact List.forall_mem_cons.mpr ⟨first,ih later⟩
  | cut stretch _ _ _ ih =>
    exact List.forall_mem_append.mpr ⟨placed,ih (List.forall_mem_append.mp each).2⟩

/-- Wherever the stretch stands in a text with a placeholder, it lies on one side of the placeholder. -/
def Apart (placeholder stretch : Str) : Prop :=
  ∀ front rest left right, left ++ (stretch ++ right) = front ++ (placeholder ++ rest) →
    left.length + stretch.length ≤ front.length ∨ front.length + placeholder.length ≤ left.length

/-- A text in which something apart from the placeholder is cut is another text. -/
theorem cuts_self (some_ : placeholder ≠ [])
    (cuts : Cuts (Apart placeholder) placeholder n text text') (same : text' = text) :
    n = 0 := by
  induction cuts with
  | nil => rfl
  | keep code _ ih => exact ih (List.cons.inj same).2
  | @cut stretch n text text' filled apart _ _ =>
    have sides := apart [] text' [] text same.symm
    have long := List.length_pos_of_ne_nil filled
    have long' := List.length_pos_of_ne_nil some_
    rw [List.length_nil] at sides
    omega

theorem cuts_placeholder (apart : ∀ stretch, Stretch stretch → Apart placeholder stretch)
    {rest out : Str} (seen unseen : Str) (whole : placeholder = seen ++ unseen)
    (cuts : Cuts Stretch placeholder n (unseen ++ rest) out) :
    ∃ out', out = unseen ++ out' ∧ Cuts Stretch placeholder n rest out' := by
  induction unseen generalizing seen out with
  | nil => exact ⟨out,rfl,cuts⟩
  | cons code unseen ih =>
    generalize shape : code::unseen ++ rest = text at cuts
    cases cuts with
    | nil => contradiction
    | keep code' later =>
      obtain ⟨rfl,rfl⟩ := List.cons.inj shape
      obtain ⟨out',rfl,after⟩ := ih (seen ++ [code]) (by rw [whole,List.append_assoc]; rfl) later
      exact ⟨out',rfl,after⟩
    | cut stretch filled kind later =>
      have sides := apart stretch kind [] rest seen _ (by rw [← shape,whole,List.append_assoc]; rfl)
      have size := congrArg List.length whole
      have long := List.length_pos_of_ne_nil filled
      rw [List.length_append,List.length_cons] at size
      rw [List.length_nil] at sides
      omega

theorem cuts_suffix (some_ : placeholder ≠ [])
    (apart : ∀ stretch, Stretch stretch → Apart placeholder stretch)
    (cuts : Cuts Stretch placeholder n text text') (ends : placeholder <:+ text) :
    placeholder <:+ text' := by
  obtain ⟨before,shape⟩ := ends
  induction cuts generalizing before with
  | nil => exact absurd (List.append_eq_nil_iff.mp shape).2 some_
  | @keep code n text text' later ih =>
    cases before with
    | nil =>
      have whole : Cuts Stretch placeholder n (code::text) (code::text') := .keep code later
      have same : code::text = placeholder ++ [] := by
        rw [List.append_nil]
        exact shape.symm
      rw [same] at whole
      obtain ⟨out,same,rest⟩ := cuts_placeholder apart [] placeholder rfl whole
      rw [cuts_of_nil rest,List.append_nil] at same
      exact ⟨[],same.symm⟩
    | cons first before =>
      obtain ⟨rfl,below⟩ := List.cons.inj shape
      exact (ih before below).trans (List.suffix_cons _ _)
  | @cut stretch n text text' filled kind later ih =>
    have sides :=
      apart stretch kind before [] [] text
        (by rw [List.nil_append,List.append_nil]; exact shape.symm)
    have long := List.length_pos_of_ne_nil some_
    obtain ⟨before',rfl⟩ : stretch <+: before :=
      List.prefix_of_prefix_length_le ⟨text,rfl⟩ (shape ▸ List.prefix_append before _)
        (by rw [List.length_nil] at sides; omega)
    rw [List.append_assoc] at shape
    exact (ih before' (List.append_cancel_left shape)).trans (List.suffix_append _ _)

/-- A stretch that is apart and stands at the front of what is left stood at the front before. -/
theorem cuts_front (some_ : placeholder ≠ []) {stretch : Str} (apart : Apart placeholder stretch)
    {rest : Str} (seen unseen : Str) (whole : stretch = seen ++ unseen)
    (cuts : Cuts Stretch placeholder n text (unseen ++ rest)) :
    ∃ more, text = unseen ++ more ∧ Cuts Stretch placeholder n more rest := by
  induction unseen generalizing seen text with
  | nil => exact ⟨text,rfl,cuts⟩
  | cons code unseen ih =>
    generalize shape : code::unseen ++ rest = text' at cuts
    cases cuts with
    | nil => contradiction
    | keep code' later =>
      obtain ⟨rfl,rfl⟩ := List.cons.inj shape
      obtain ⟨more,rfl,after⟩ := ih (seen ++ [code]) (by rw [whole,List.append_assoc]; rfl) later
      exact ⟨more,rfl,after⟩
    | cut cutout filled kind later =>
      have sides := apart seen _ [] rest (by rw [← shape,whole,List.nil_append,List.append_assoc])
      have size := congrArg List.length whole
      have long := List.length_pos_of_ne_nil some_
      rw [List.length_append,List.length_cons] at size
      rw [List.length_nil] at sides
      omega

/-- A stretch that is apart and is still there stood in the first text, between what became its surroundings. -/
theorem cuts_window (some_ : placeholder ≠ []) {stretch front rest : Str} (filled : stretch ≠ [])
    (apart : Apart placeholder stretch)
    (cuts : Cuts Stretch placeholder n text (front ++ (stretch ++ rest))) :
    ∃ before more i j, text = before ++ (stretch ++ more) ∧ i + j = n ∧
    Cuts Stretch placeholder i before front ∧
      Cuts Stretch placeholder j more rest := by
  generalize shape : front ++ (stretch ++ rest) = text' at cuts
  induction cuts generalizing front with
  | nil => exact absurd (List.append_eq_nil_iff.mp (List.append_eq_nil_iff.mp shape).2).1 filled
  | @keep code n text text' later ih =>
    cases front with
    | nil =>
      have whole : Cuts Stretch placeholder n (code::text) (stretch ++ rest) := by
        rw [List.nil_append] at shape
        exact shape ▸ Cuts.keep code later
      obtain ⟨more,same,after⟩ := cuts_front some_ apart [] stretch rfl whole
      exact ⟨[],more,0,n,same,Nat.zero_add n,.nil,after⟩
    | cons first front =>
      obtain ⟨rfl,below⟩ := List.cons.inj shape
      obtain ⟨before,more,i,j,same,sum,fronts,rests⟩ := ih below
      exact ⟨first::before,more,i,j,by rw [same,List.cons_append],sum,.keep first fronts,rests⟩
  | @cut cutout n text text' full kind later ih =>
    have sides := apart [] text' front rest shape
    have long := List.length_pos_of_ne_nil filled
    obtain ⟨front',rfl⟩ : placeholder <+: front :=
      List.prefix_of_prefix_length_le ⟨text',rfl⟩ (shape ▸ List.prefix_append front _)
        (by rw [List.length_nil] at sides; omega)
    rw [List.append_assoc] at shape
    obtain ⟨before,more,i,j,same,sum,fronts,rests⟩ := ih (List.append_cancel_left shape)
    exact ⟨cutout ++ before,more,i + 1,j,
      by rw [same,List.append_assoc],by omega,.cut cutout full kind fronts,rests⟩

theorem cuts_trans {Later : Str → Prop} (some_ : placeholder ≠ [])
    (apart : ∀ stretch, Later stretch → Apart placeholder stretch)
    (kinds : ∀ stretch, Later stretch → Stretch stretch) {out : Str}
    (first : Cuts Stretch placeholder n text text') (second : Cuts Later placeholder m text' out) :
    Cuts Stretch placeholder (n + m) text out := by
  induction size : text'.length using Nat.strongRecOn generalizing n m text text' out with
  | _ length ih =>
    cases second with
    | nil => exact first
    | @keep code _ middle out later =>
      generalize shape : code::middle = text' at first
      cases first with
      | nil => contradiction
      | keep code' before =>
        obtain ⟨rfl,rfl⟩ := List.cons.inj shape
        exact .keep code (ih _ (by rw [← size,List.length_cons]; omega) before later rfl)
      | @cut stretch n text kept filled kind before =>
        have whole : Cuts Later placeholder m (placeholder ++ kept) (code::out) :=
          shape ▸ Cuts.keep code later
        obtain ⟨out',shape',after⟩ := cuts_placeholder apart [] placeholder rfl whole
        rw [shape',Nat.add_right_comm]
        have long := List.length_pos_of_ne_nil some_
        have shorter := congrArg List.length shape
        rw [List.length_append,List.length_cons] at shorter
        rw [List.length_cons] at size
        exact .cut stretch filled kind (ih _ (by omega) before after rfl)
    | @cut stretch m middle out filled kind later =>
      obtain ⟨more,rfl,before⟩ := cuts_front some_ (apart stretch kind) [] stretch rfl first
      have long := List.length_pos_of_ne_nil filled
      rw [List.length_append] at size
      exact .cut stretch filled (kinds stretch kind) (ih _ (by omega) before later rfl)

/-- A stretch without the brackets of the placeholder, and not within them, is apart from it. -/
theorem apart_of_brackets {opening closing : Nat} {inner stretch : Str} (filled : stretch ≠ [])
    (clean : opening ∉ stretch ∧ closing ∉ stretch) (outside : ¬ stretch <:+: inner) :
    Apart (opening::(inner ++ [closing])) stretch := by
  intro front rest left right shape
  by_contra between
  rw [not_or,Nat.not_le,Nat.not_le] at between
  have at_ (i : Nat) (inside : i < stretch.length) :
      (front ++ (opening::(inner ++ [closing]) ++ rest))[left.length + i]? = some stretch[i] := by
    rw [← shape,List.getElem?_append_right (Nat.le_add_right _ _),Nat.add_sub_cancel_left,
      List.getElem?_append_left inside,List.getElem?_eq_getElem inside]
  have long := List.length_pos_of_ne_nil filled
  simp only [List.length_cons,List.length_append,List.length_nil] at between
  by_cases early : left.length ≤ front.length
  · have found := at_ (front.length - left.length) (by omega)
    rw [Nat.add_sub_cancel' early,List.getElem?_append_right (Nat.le_refl _),Nat.sub_self] at found
    exact clean.1 (Option.some.inj found ▸ List.getElem_mem _)
  · by_cases late : front.length + inner.length + 1 < left.length + stretch.length
    · have found := at_ (front.length + inner.length + 1 - left.length) (by omega)
      rw [show left.length + (front.length + inner.length + 1 - left.length) = front.length +
        (inner.length + 1) by omega,
        List.getElem?_append_right (Nat.le_add_right _ _),Nat.add_sub_cancel_left] at found
      have last : (opening::(inner ++ [closing]) ++ rest)[inner.length + 1]? = some closing := by
        simp
      rw [last] at found
      exact clean.2 (Option.some.inj found ▸ List.getElem_mem _)
    · apply outside
      have middle : stretch = (inner.drop (left.length - front.length - 1)).take
        stretch.length := by
        apply List.ext_getElem?
        intro i
        by_cases inside : i < stretch.length
        · have found := at_ i inside
          rw [List.getElem?_append_right (by omega),
            show left.length + i - front.length = left.length - front.length - 1 + i + 1 by omega,
            List.cons_append,List.getElem?_cons_succ,List.append_assoc,
            List.getElem?_append_left (by omega)] at found
          rw [List.getElem?_eq_getElem inside,List.getElem?_take_of_lt inside,
            List.getElem?_drop,found]
        · rw [List.getElem?_eq_none (by omega),
            List.getElem?_eq_none (by rw [List.length_take]; omega)]
      rw [middle]
      exact (List.take_prefix _ _).isInfix.trans (List.drop_suffix _ _).isInfix

end QuilrMcp.Library.Cutting
