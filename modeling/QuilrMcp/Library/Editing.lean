import QuilrMcp.Library.Cutting

/-! Text from which stretches are cut, where what may be cut or kept depends on what stands before
it. A stretch that is apart from the placeholder and is still there stood in the first text, and what
stood beside it still does, or was cut. -/
namespace QuilrMcp.Library.Editing
open Text
open Cutting

/-- Behind `front`, the second text is the first with a placeholder in place of stretches. -/
inductive Edits (Cut : Str → Str → Prop) (Keep : Str → Prop) (placeholder : Str) :
    Str → Str → Str → Prop
  | nil (front : Str) : Edits Cut Keep placeholder front [] []
  | keep {front : Str} (code : Nat) {text text' : Str} :
      Keep front → Edits Cut Keep placeholder (front ++ [code]) text text' →
      Edits Cut Keep placeholder front (code::text) (code::text')
  | cut {front : Str} (stretch : Str) {text text' : Str} : stretch ≠ [] → Cut front stretch →
      Edits Cut Keep placeholder (front ++ stretch) text text' →
      Edits Cut Keep placeholder front (stretch ++ text) (placeholder ++ text')

variable {Cut : Str → Str → Prop} {Keep : Str → Prop}
    {placeholder front text text' more more' : Str}

theorem edits_append (first : Edits Cut Keep placeholder front text text')
    (second : Edits Cut Keep placeholder (front ++ text) more more') :
    Edits Cut Keep placeholder front (text ++ more) (text' ++ more') := by
  induction first with
  | nil front => rwa [List.append_nil] at second
  | keep code kept _ ih =>
    rw [List.append_cons] at second
    exact .keep code kept (ih second)
  | cut stretch filled known _ ih =>
    rw [← List.append_assoc] at second
    rw [List.append_assoc,List.append_assoc]
    exact .cut stretch filled known (ih second)

theorem edits_cuts (edits : Edits Cut Keep placeholder front text text') :
    ∃ n, Cuts (fun stretch => ∃ front, Cut front stretch) placeholder n text text' := by
  induction edits with
  | nil _ => exact ⟨0,.nil⟩
  | keep code _ _ ih =>
    obtain ⟨n,cuts⟩ := ih
    exact ⟨n,.keep code cuts⟩
  | cut stretch filled known _ ih =>
    obtain ⟨n,cuts⟩ := ih
    exact ⟨n + 1,.cut stretch filled ⟨_,known⟩ cuts⟩

private theorem edits_front (some_ : placeholder ≠ []) {stretch : Str}
    (apart : Apart placeholder stretch) {rest : Str} (seen unseen : Str)
    (whole : stretch = seen ++ unseen)
    (edits : Edits Cut Keep placeholder front text (unseen ++ rest)) :
    ∃ more, text = unseen ++ more ∧ Edits Cut Keep placeholder (front ++ unseen) more rest := by
  induction unseen generalizing seen front text with
  | nil => exact ⟨text,rfl,by rwa [List.append_nil]⟩
  | cons code unseen ih =>
    generalize shape : code::unseen ++ rest = text' at edits
    cases edits with
    | nil => contradiction
    | keep code' _ later =>
      obtain ⟨rfl,rfl⟩ := List.cons.inj shape
      obtain ⟨more,rfl,after⟩ := ih (seen ++ [code]) (by rw [whole,List.append_assoc]; rfl) later
      rw [List.append_assoc,List.singleton_append] at after
      exact ⟨more,rfl,after⟩
    | cut cutout filled known later =>
      have sides := apart seen _ [] rest (by rw [← shape,whole,List.nil_append,List.append_assoc])
      have size := congrArg List.length whole
      have long := List.length_pos_of_ne_nil some_
      rw [List.length_append,List.length_cons] at size
      rw [List.length_nil] at sides
      omega

/-- A stretch that is apart and is still there stood in the first text, at a place that was kept,
between what became its surroundings. -/
theorem edits_window (some_ : placeholder ≠ []) {stretch left right : Str} (filled : stretch ≠ [])
    (apart : Apart placeholder stretch)
    (edits : Edits Cut Keep placeholder front text (left ++ (stretch ++ right))) :
    ∃ before after, text = before ++ (stretch ++ after) ∧
    Edits Cut Keep placeholder front before left ∧
      Keep (front ++ before) ∧ Edits Cut Keep placeholder (front ++ before ++
        stretch) after right := by
  generalize shape : left ++ (stretch ++ right) = text' at edits
  induction edits generalizing left with
  | nil _ => exact absurd (List.append_eq_nil_iff.mp (List.append_eq_nil_iff.mp shape).2).1 filled
  | @keep front code text text' kept later ih =>
    cases left with
    | nil =>
      have whole : Edits Cut Keep placeholder front (code::text) (stretch ++ right) := by
        rw [List.nil_append] at shape
        exact shape ▸ Edits.keep code kept later
      obtain ⟨after,same,rest⟩ := edits_front some_ apart [] stretch rfl whole
      refine ⟨[],after,same,.nil front,?_,?_⟩
      · rwa [List.append_nil]
      · rwa [List.append_nil]
    | cons first left =>
      obtain ⟨rfl,below⟩ := List.cons.inj shape
      obtain ⟨before,after,same,fronts,keeps,rests⟩ := ih below
      rw [← List.append_cons] at keeps rests
      exact ⟨first::before,after,by rw [same,List.cons_append],.keep first kept fronts,keeps,rests⟩
  | @cut front cutout text text' full known later ih =>
    have sides := apart [] text' left right shape
    have long := List.length_pos_of_ne_nil filled
    obtain ⟨left',rfl⟩ : placeholder <+: left :=
      List.prefix_of_prefix_length_le ⟨text',rfl⟩ (shape ▸ List.prefix_append left _)
        (by rw [List.length_nil] at sides; omega)
    rw [List.append_assoc] at shape
    obtain ⟨before,after,same,fronts,keeps,rests⟩ := ih (List.append_cancel_left shape)
    rw [List.append_assoc front] at keeps rests
    exact ⟨cutout ++ before,after,
      by rw [same,List.append_assoc],.cut cutout full known fronts,keeps,rests⟩

/-- What a text begins with was kept, or began what was cut. -/
theorem edits_head (edits : Edits Cut Keep placeholder front text text') :
    text'.head? = text.head? ∨ ∃ stretch, stretch ≠ [] ∧ Cut front stretch ∧
    text.head? = stretch.head? := by
  cases edits with
  | nil _ => exact Or.inl rfl
  | keep code _ _ => exact Or.inl rfl
  | cut stretch filled known _ =>
    refine Or.inr ⟨stretch,filled,known,?_⟩
    rw [List.head?_append_of_ne_nil _ filled]

/-- What a text ends with was kept, or a placeholder is there. -/
theorem edits_last (edits : Edits Cut Keep placeholder front text text') :
    text'.getLast? = text.getLast? ∨ placeholder <:+ text' := by
  induction edits with
  | nil _ => exact Or.inl rfl
  | @keep front code text text' _ later ih =>
    rcases ih with same | ends
    · left
      rw [List.getLast?_cons,List.getLast?_cons,same]
    · exact Or.inr (ends.trans (List.suffix_cons _ _))
  | @cut front stretch text text' filled _ later ih =>
    rcases ih with same | ends
    · cases text with
      | nil =>
        obtain ⟨n,cuts⟩ := edits_cuts later
        rw [cuts_of_nil cuts,List.append_nil]
        exact Or.inr List.suffix_rfl
      | cons code text =>
        have kept : text' ≠ [] := by
          rintro rfl
          rw [List.getLast?_nil,eq_comm,List.getLast?_eq_none_iff] at same
          contradiction
        left
        rw [List.getLast?_append_of_ne_nil _ kept,List.getLast?_append_of_ne_nil _
          (List.cons_ne_nil code text)]
        exact same
    · exact Or.inr (ends.trans (List.suffix_append _ _))

end QuilrMcp.Library.Editing
