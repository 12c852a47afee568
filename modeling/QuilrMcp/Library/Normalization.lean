import QuilrMcp.Library.Text
import Mathlib.Tactic.Common

/-! Unicode normalisation: decomposition, canonical ordering and composition over tables that are a
parameter. A reader that takes one code point after another, and to which neither the order of marks nor a
composition makes a difference, reads the same before and after. -/
namespace QuilrMcp.Library.Normalization
open Text

structure CodePoints where
  canonical : Nat → Str
  compatible : Nat → Str
  combiningClass : Nat → Nat
  composite : Nat → Nat → Option Nat

section Algorithm
variable (codes : CodePoints)

/-- A mark goes behind the marks of a lower class that follow it. -/
def settle (code : Nat) : Str → Str
  | [] => [code]
  | next::rest =>
    if 0 < codes.combiningClass next ∧ codes.combiningClass next < codes.combiningClass code then
      next::settle code rest
    else code::next::rest

def order : Str → Str
  | [] => []
  | code::rest => settle codes code (order rest)

/-- What follows a starter joins it where a composite is listed and no mark between them blocks it. -/
def absorb (starter : Nat) (kept : Str) : Str → Str
  | [] => starter::kept
  | next::rest =>
    match if kept.all (fun mark => codes.combiningClass mark < codes.combiningClass next) then
      codes.composite starter next else none with
    | some composite => absorb composite kept rest
    | none =>
      if codes.combiningClass next = 0 then starter::kept ++ absorb next [] rest else absorb starter
        (kept ++ [next]) rest

def compose : Str → Str
  | [] => []
  | code::rest => absorb codes code [] rest

def nfd (text : Str) : Str := order codes (text.flatMap codes.canonical)

def nfc (text : Str) : Str := compose codes (nfd codes text)

def nfkc (text : Str) : Str := compose codes (order codes (text.flatMap codes.compatible))

end Algorithm

variable {codes : CodePoints}

private theorem settle_perm (code : Nat) (text : Str) :
    (settle codes code text).Perm (code::text) := by
  induction text with
  | nil => exact .refl _
  | cons next rest ih =>
    rw [settle]
    split_ifs with lower
    · exact (ih.cons next).trans (.swap code next rest)
    · exact .refl _

theorem order_perm (text : Str) : (order codes text).Perm text := by
  induction text with
  | nil => exact .refl _
  | cons code rest ih => exact (settle_perm code _).trans (ih.cons code)

private theorem order_starters {text : Str} (starters : ∀ code ∈ text, codes.combiningClass code =
    0) : order codes text = text := by
  induction text with
  | nil => rfl
  | cons code rest ih =>
    obtain ⟨here,later⟩ := List.forall_mem_cons.mp starters
    rw [order,ih later]
    cases rest with
    | nil => rfl
    | cons next rest =>
      rw [settle,if_neg]
      have := later next List.mem_cons_self
      omega

private theorem absorb_starters {starter : Nat} {text : Str}
    (starters : ∀ code ∈ text, codes.combiningClass code = 0)
    (apart : ∀ first next, next ∈ text → codes.composite first next = none) :
    absorb codes starter [] text = starter::text := by
  induction text generalizing starter with
  | nil => rfl
  | cons next rest ih =>
    obtain ⟨here,later⟩ := List.forall_mem_cons.mp starters
    rw [absorb,apart starter next List.mem_cons_self,ite_self]
    simp only
    rw [if_pos here,ih later (fun first other member =>
      apart first other (List.mem_cons_of_mem _ member))]
    rfl

theorem nfkc_starters {text : Str} (whole : ∀ code ∈ text, codes.compatible code = [code])
    (starters : ∀ code ∈ text, codes.combiningClass code = 0)
    (apart : ∀ first next, next ∈ text → codes.composite first next = none) :
    nfkc codes text = text := by
  rw [nfkc,List.flatMap_congr whole,List.flatMap_singleton',order_starters starters]
  cases text with
  | nil => rfl
  | cons code rest =>
    exact absorb_starters (fun other member => starters other (List.mem_cons_of_mem _ member))
      (fun first other member => apart first other (List.mem_cons_of_mem _ member))

section Readers
variable {σ : Type*} {step : σ → Nat → σ}

/-- The order of two marks makes no difference. -/
def Unordered (codes : CodePoints) (step : σ → Nat → σ) : Prop :=
  ∀ state mark mark', codes.combiningClass mark ≠ 0 →
  codes.combiningClass mark' ≠ 0 → step (step state mark) mark' = step (step state mark') mark

/-- Among these code points a composite reads as what it is composed of. -/
def Uncomposed (codes : CodePoints) (Among : Nat → Prop) (step : σ → Nat → σ) : Prop :=
  ∀ first next composite,
  codes.composite first next = some composite → Among first → Among next →
    Among composite ∧ ∀ state, step state composite = step (step state first) next

private theorem settle_reads (unordered : Unordered codes step) (code : Nat)
    (text : Str) (state : σ) :
    (settle codes code text).foldl step state = text.foldl step (step state code) := by
  induction text generalizing state with
  | nil => rfl
  | cons next rest ih =>
    rw [settle]
    split_ifs with lower
    · rw [List.foldl_cons,ih,List.foldl_cons,unordered state next code (by omega) (by omega)]
    · rfl

theorem order_reads (unordered : Unordered codes step) (text : Str) (state : σ) :
    (order codes text).foldl step state = text.foldl step state := by
  induction text generalizing state with
  | nil => rfl
  | cons code rest ih => rw [order,settle_reads unordered,ih,List.foldl_cons]

private theorem read_before (unordered : Unordered codes step) {mark : Nat}
    (here : codes.combiningClass mark ≠ 0) (kept : Str)
    (marks : ∀ code ∈ kept, codes.combiningClass code ≠ 0) (state : σ) :
    step (kept.foldl step state) mark = kept.foldl step (step state mark) := by
  induction kept generalizing state with
  | nil => rfl
  | cons code kept ih =>
    obtain ⟨first,rest⟩ := List.forall_mem_cons.mp marks
    rw [List.foldl_cons,ih rest,List.foldl_cons,unordered state code mark first here]

variable {Among : Nat → Prop}

private theorem absorb_reads (unordered : Unordered codes step)
    (uncomposed : Uncomposed codes Among step) (starter : Nat) (kept text : Str)
    (marks : ∀ code ∈ kept, codes.combiningClass code ≠ 0) (first : Among starter)
    (among : ∀ code ∈ text, Among code) (state : σ) :
    (absorb codes starter kept text).foldl step state =
    (starter::kept ++ text).foldl step state := by
  induction text generalizing starter kept state with
  | nil => rw [absorb,List.append_nil]
  | cons next rest ih =>
    obtain ⟨here,later⟩ := List.forall_mem_cons.mp among
    rw [absorb]
    cases joined : if kept.all (fun mark => codes.combiningClass mark < codes.combiningClass
      next) then codes.composite starter next else none with
    | some composite =>
      simp only
      split_ifs at joined with free
      obtain ⟨known,reads⟩ := uncomposed starter next composite joined first here
      rw [ih composite kept marks known later,List.cons_append,List.foldl_cons,List.foldl_append,
        reads,List.cons_append,List.foldl_cons,List.foldl_append,List.foldl_cons]
      cases kept with
      | nil => rfl
      | cons mark kept =>
        have lower := List.all_eq_true.mp free mark List.mem_cons_self
        have apart : codes.combiningClass next ≠ 0 := by
          have := of_decide_eq_true lower
          omega
        rw [read_before unordered apart _ marks]
    | none =>
      simp only
      split_ifs with base
      · rw [List.foldl_append,List.foldl_append,ih next [] (List.forall_mem_nil _) here later]
        rfl
      · rw [ih starter (kept ++ [next]) _ first later]
        · rw [List.cons_append,List.append_assoc,List.singleton_append,List.cons_append]
        · intro code member
          rcases List.mem_append.mp member with before | last
          · exact marks code before
          · exact List.mem_singleton.mp last ▸ base

theorem compose_reads (unordered : Unordered codes step) (uncomposed : Uncomposed codes Among step)
    (text : Str) (among : ∀ code ∈ text, Among code) (state : σ) :
    (compose codes text).foldl step state = text.foldl step state := by
  cases text with
  | nil => rfl
  | cons code rest =>
    obtain ⟨first,later⟩ := List.forall_mem_cons.mp among
    exact absorb_reads unordered uncomposed code [] rest (List.forall_mem_nil _) first later state

end Readers

section Prefixes
variable (word : Str)

/-- So much of the word has been read, or another text. -/
def advance : Option Nat → Nat → Option Nat
  | none, _ => none
  | some read, code =>
    match word[read]? with
    | none => some read
    | some letter => if code = letter then some (read + 1) else none

/-- What reading a code point outside the word does. -/
def stray : Option Nat → Option Nat
  | none => none
  | some read => if read < word.length then none else some read

variable {word}

theorem advance_stray {code : Nat} (outside : code ∉ word) (state : Option Nat) :
    advance word state code = stray word state := by
  cases state with
  | none => rfl
  | some read =>
    rw [advance,stray]
    split_ifs with inside
    · rw [List.getElem?_eq_getElem inside]
      simp only
      rw [if_neg]
      intro same
      exact outside (same ▸ List.getElem_mem inside)
    · rw [List.getElem?_eq_none (by omega)]

theorem stray_stray (state : Option Nat) : stray word (stray word state) = stray word state := by
  cases state with
  | none => rfl
  | some read =>
    rw [stray]
    split_ifs with inside
    · rfl
    · rw [stray,if_neg inside]

/-- Any number of code points outside the word read as one. -/
theorem foldl_stray {text : Str} (some_ : text ≠ []) (outside : ∀ code ∈ text, code ∉ word)
    (state : Option Nat) :
    text.foldl (advance word) state = stray word state := by
  induction text generalizing state with
  | nil => contradiction
  | cons code text ih =>
    obtain ⟨here,later⟩ := List.forall_mem_cons.mp outside
    rw [List.foldl_cons,advance_stray here]
    by_cases last : text = []
    · rw [last,List.foldl_nil]
    · rw [ih last later,stray_stray]

private theorem foldl_none (text : Str) : text.foldl (advance word) none = none := by
  induction text with
  | nil => rfl
  | cons code text ih => exact ih

private theorem foldl_drop {read : Nat} (inside : read ≤ word.length) (text : Str) :
    text.foldl (advance word) (some read) = some word.length ↔ word.drop read <+: text := by
  induction text generalizing read with
  | nil =>
    rw [List.foldl_nil,Option.some.injEq,List.prefix_nil,List.drop_eq_nil_iff]
    omega
  | cons code text ih =>
    rw [List.foldl_cons,advance]
    by_cases done : read = word.length
    · rw [List.getElem?_eq_none (by omega),List.drop_eq_nil_of_le (by omega)]
      simp only
      rw [ih inside,List.drop_eq_nil_of_le (by omega)]
      exact iff_of_true (List.nil_prefix) (List.nil_prefix)
    · rw [List.getElem?_eq_getElem (by omega),List.drop_eq_getElem_cons (by omega),
        List.cons_prefix_cons]
      simp only
      split_ifs with same
      · rw [ih (by omega),same]
        exact (and_iff_right rfl).symm
      · rw [foldl_none]
        exact iff_of_false (by simp) (fun both => same both.1.symm)

theorem prefix_iff (text : Str) :
    word <+: text ↔ text.foldl (advance word) (some 0) = some word.length := by
  rw [foldl_drop (Nat.zero_le _),List.drop_zero]

end Prefixes

end QuilrMcp.Library.Normalization
