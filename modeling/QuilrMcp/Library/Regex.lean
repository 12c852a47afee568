import QuilrMcp.Library.Text
import Mathlib.Data.List.Range
import Mathlib.Data.List.TakeWhile

/-! Backtracking search. `ends` lists where a match that begins at a position can end, in the
order in which a greedy engine tries them, and `touches` says whether the engine looked past
the end of the text on the way: then, and only then, more text could change the answer. -/
namespace QuilrMcp.Library.Search
open Text

inductive Regex
  | char (accept : Nat → Bool)
  | seq (first second : Regex)
  | alt (first second : Regex)
  /-- From `least` to `least + extra` copies, as many as possible first. -/
  | rep (body : Regex) (least extra : Nat)
  /-- At least `least` code points of a class, as many as possible first. -/
  | many (accept : Nat → Bool) (least : Nat)
  | notAhead (body : Regex)
  | notBehind (accept : Nat → Bool)

def Regex.sequence : List Regex → Regex
  | [] => .rep (.char (fun _ => true)) 0 0
  | [only] => only
  | first::rest => .seq first (.sequence rest)

def Regex.literal (text : Str) : Regex := .sequence (text.map (fun code => .char (· == code)))

def atMost (next : Nat → List Nat) : Nat → Nat → List Nat
  | 0, i => [i]
  | extra+1, i => (next i).flatMap (atMost next extra) ++ [i]

def copies (next : Nat → List Nat) (extra : Nat) : Nat → Nat → List Nat
  | 0, i => atMost next extra i
  | least+1, i => (next i).flatMap (copies next extra least)

def runLength (accept : Nat → Bool) (text : Str) (i : Nat) : Nat :=
  ((text.drop i).takeWhile accept).length

def ends : Regex → Str → Nat → List Nat
  | .char accept, text, i => if text[i]?.any accept then [i + 1] else []
  | .seq first second, text, i => (ends first text i).flatMap (ends second text)
  | .alt first second, text, i => ends first text i ++ ends second text i
  | .rep body least extra, text, i => copies (ends body text) extra least i
  | .many accept least, text, i =>
    (List.range (runLength accept text i + 1 - least)).map (fun short => i +
      runLength accept text i - short)
  | .notAhead body, text, i => if (ends body text i).isEmpty then [i] else []
  | .notBehind accept, text, i => if 0 < i ∧ text[i - 1]?.any accept then [] else [i]

def atMostTouches (next : Nat → List Nat) (touch : Nat → Bool) : Nat → Nat → Bool
  | 0, _ => false
  | extra+1, i => touch i || (next i).any (atMostTouches next touch extra)

def copiesTouches (next : Nat → List Nat) (touch : Nat → Bool) (extra : Nat) : Nat → Nat → Bool
  | 0, i => atMostTouches next touch extra i
  | least+1, i => touch i || (next i).any (copiesTouches next touch extra least)

def touches : Regex → Str → Nat → Bool
  | .char _, text, i => text.length ≤ i
  | .seq first second, text, i =>
    touches first text i || (ends first text i).any (touches second text)
  | .alt first second, text, i => touches first text i || touches second text i
  | .rep body least extra, text, i =>
    copiesTouches (ends body text) (touches body text) extra least i
  | .many accept _, text, i => text.length ≤ i + runLength accept text i
  | .notAhead body, text, i => touches body text i
  | .notBehind _, _, _ => false

/-- The least number of code points that a match has. -/
def minLength : Regex → Nat
  | .char _ => 1
  | .seq first second => minLength first + minLength second
  | .alt first second => min (minLength first) (minLength second)
  | .rep body least _ => least * minLength body
  | .many _ least => least
  | .notAhead _ => 0
  | .notBehind _ => 0

private theorem atMost_bound (next : Nat → List Nat) (limit : Nat)
    (bound : ∀ i ≤ limit, ∀ e ∈ next i, i ≤ e ∧ e ≤ limit) (extra i : Nat) (inside : i ≤ limit) :
    ∀ e ∈ atMost next extra i, i ≤ e ∧ e ≤ limit := by
  induction extra generalizing i with
  | zero =>
    intro e member
    rw [atMost,List.mem_singleton] at member
    omega
  | succ extra ih =>
    intro e member
    rw [atMost,List.mem_append,List.mem_flatMap,List.mem_singleton] at member
    rcases member with ⟨middle,first,later⟩ | rfl
    · have here := bound i inside middle first
      have there := ih middle here.2 e later
      omega
    · omega

private theorem copies_bound (next : Nat → List Nat) (limit size extra : Nat)
    (bound : ∀ i ≤ limit, ∀ e ∈ next i, i + size ≤ e ∧ e ≤ limit) (least i : Nat)
    (inside : i ≤ limit) :
    ∀ e ∈ copies next extra least i, i + least * size ≤ e ∧ e ≤ limit := by
  induction least generalizing i with
  | zero =>
    intro e member
    have plain : ∀ i ≤ limit, ∀ e ∈ next i, i ≤ e ∧ e ≤ limit := by
      intro i inside e member
      have := bound i inside e member
      omega
    have := atMost_bound next limit plain extra i inside e member
    omega
  | succ least ih =>
    intro e member
    rw [copies,List.mem_flatMap] at member
    obtain ⟨middle,first,later⟩ := member
    have here := bound i inside middle first
    have there := ih middle here.2 e later
    rw [Nat.add_mul,Nat.one_mul]
    omega

private theorem runLength_le (accept : Nat → Bool) (text : Str) (i : Nat)
    (inside : i ≤ text.length) :
    i + runLength accept text i ≤ text.length := by
  have shorter : runLength accept text i ≤ (text.drop i).length :=
    (List.takeWhile_prefix accept).length_le
  rw [List.length_drop] at shorter
  omega

/-- A match lies within the text and is at least as long as its expression asks for. -/
theorem ends_bound (regex : Regex) (text : Str) (i : Nat) (inside : i ≤ text.length) :
    ∀ e ∈ ends regex text i, i + minLength regex ≤ e ∧ e ≤ text.length := by
  induction regex generalizing i with
  | char accept =>
    intro e member
    rw [ends] at member
    split_ifs at member with accepted
    · rw [List.mem_singleton] at member
      have here : i < text.length := by
        by_contra past
        rw [List.getElem?_eq_none (by omega)] at accepted
        contradiction
      simp only [minLength]
      omega
    · cases member
  | seq first second ihFirst ihSecond =>
    intro e member
    rw [ends,List.mem_flatMap] at member
    obtain ⟨middle,one,two⟩ := member
    have here := ihFirst i inside middle one
    have there := ihSecond middle here.2 e two
    simp only [minLength]
    omega
  | alt first second ihFirst ihSecond =>
    intro e member
    rw [ends,List.mem_append] at member
    simp only [minLength]
    rcases member with one | two
    · have := ihFirst i inside e one
      omega
    · have := ihSecond i inside e two
      omega
  | rep body least extra ih =>
    exact copies_bound (ends body text) text.length (minLength body) extra (fun i inside =>
      ih i inside) least i inside
  | many accept least =>
    intro e member
    have := runLength_le accept text i inside
    simp only [ends,List.mem_map,List.mem_range] at member
    obtain ⟨short,small,rfl⟩ := member
    simp only [minLength]
    omega
  | notAhead body ih =>
    intro e member
    rw [ends] at member
    split_ifs at member
    · rw [List.mem_singleton] at member
      simp only [minLength]
      omega
    · cases member
  | notBehind accept =>
    intro e member
    rw [ends] at member
    split_ifs at member
    · cases member
    · rw [List.mem_singleton] at member
      simp only [minLength]
      omega

/-- A search that has not looked past the end of the text finds the same in a longer one. -/
private theorem atMost_append (next next' : Nat → List Nat)
    (touch touch' : Nat → Bool) (limit : Nat) (bound : ∀ i ≤ limit, ∀ e ∈ next i, e ≤ limit)
    (same : ∀ i ≤ limit, touch i = false → next' i = next i ∧ touch' i = false) (extra i : Nat)
    (inside : i ≤ limit) (settled : atMostTouches next touch extra i = false) :
    atMost next' extra i = atMost next extra i ∧ atMostTouches next' touch' extra i = false := by
  induction extra generalizing i with
  | zero => exact ⟨rfl,rfl⟩
  | succ extra ih =>
    simp only [atMostTouches,Bool.or_eq_false_iff,List.any_eq_false,Bool.not_eq_true] at settled
    obtain ⟨equal,quiet⟩ := same i inside settled.1
    have later (e : Nat) (member : e ∈ next i) :=
      ih e (bound i inside e member) (settled.2 e member)
    constructor
    · rw [atMost,atMost,equal]
      congr 1
      exact List.flatMap_congr fun e member => (later e member).1
    · simp only [atMostTouches,equal,quiet,Bool.or_eq_false_iff,List.any_eq_false,Bool.not_eq_true]
      exact ⟨trivial,fun e member => (later e member).2⟩

private theorem copies_append (next next' : Nat → List Nat) (touch touch' : Nat → Bool)
    (limit extra : Nat) (bound : ∀ i ≤ limit, ∀ e ∈ next i, e ≤ limit)
    (same : ∀ i ≤ limit, touch i = false → next' i = next i ∧ touch' i = false) (least i : Nat)
    (inside : i ≤ limit) (settled : copiesTouches next touch extra least i = false) :
    copies next' extra least i = copies next extra least i ∧
    copiesTouches next' touch' extra least i = false := by
  induction least generalizing i with
  | zero => exact atMost_append next next' touch touch' limit bound same extra i inside settled
  | succ least ih =>
    simp only [copiesTouches,Bool.or_eq_false_iff,List.any_eq_false,Bool.not_eq_true] at settled
    obtain ⟨equal,quiet⟩ := same i inside settled.1
    have later (e : Nat) (member : e ∈ next i) :=
      ih e (bound i inside e member) (settled.2 e member)
    constructor
    · rw [copies,copies,equal]
      exact List.flatMap_congr fun e member => (later e member).1
    · simp only [copiesTouches,equal,quiet,Bool.or_eq_false_iff,List.any_eq_false,Bool.not_eq_true]
      exact ⟨trivial,fun e member => (later e member).2⟩

private theorem runLength_append (accept : Nat → Bool) (text more : Str) (i : Nat)
    (inside : i ≤ text.length) (settled : i + runLength accept text i < text.length) :
    runLength accept (text ++ more) i = runLength accept text i := by
  have shorter : ((text.drop i).takeWhile accept).length ≠ (text.drop i).length := by
    rw [List.length_drop]
    simp only [runLength] at settled
    omega
  rw [runLength,runLength,List.drop_append_of_le_length inside,List.takeWhile_append,if_neg shorter]

theorem ends_append (regex : Regex) (text more : Str) (i : Nat) (inside : i ≤ text.length)
    (settled : touches regex text i = false) :
    ends regex (text ++ more) i = ends regex text i ∧ touches regex (text ++ more) i = false := by
  induction regex generalizing i with
  | char accept =>
    simp only [touches,decide_eq_false_iff_not,Nat.not_le] at settled
    refine ⟨?_,?_⟩
    · rw [ends,ends,List.getElem?_append_left settled]
    · simp only [touches,List.length_append,decide_eq_false_iff_not]
      omega
  | seq first second ihFirst ihSecond =>
    simp only [touches,Bool.or_eq_false_iff,List.any_eq_false,Bool.not_eq_true] at settled
    obtain ⟨equal,quiet⟩ := ihFirst i inside settled.1
    have later (e : Nat) (member : e ∈ ends first text i) :=
      ihSecond e (ends_bound first text i inside e member).2 (settled.2 e member)
    constructor
    · rw [ends,ends,equal]
      exact List.flatMap_congr fun e member => (later e member).1
    · simp only [touches,equal,quiet,Bool.or_eq_false_iff,List.any_eq_false,Bool.not_eq_true]
      exact ⟨trivial,fun e member => (later e member).2⟩
  | alt first second ihFirst ihSecond =>
    simp only [touches,Bool.or_eq_false_iff] at settled
    obtain ⟨equalFirst,quietFirst⟩ := ihFirst i inside settled.1
    obtain ⟨equalSecond,quietSecond⟩ := ihSecond i inside settled.2
    simp only [ends,touches,equalFirst,equalSecond,quietFirst,quietSecond,Bool.or_false,and_self]
  | rep body least extra ih =>
    exact copies_append _ _ _ _ text.length extra (fun i inside e member =>
      (ends_bound body text i inside e member).2)
      (fun i inside settled => ih i inside settled) least i inside settled
  | many accept least =>
    simp only [touches,decide_eq_false_iff_not,Nat.not_le] at settled
    have equal := runLength_append accept text more i inside settled
    refine ⟨by rw [ends,ends,equal],?_⟩
    simp only [touches,equal,List.length_append,decide_eq_false_iff_not]
    omega
  | notAhead body ih =>
    obtain ⟨equal,quiet⟩ := ih i inside settled
    exact ⟨by rw [ends,ends,equal],quiet⟩
  | notBehind accept =>
    refine ⟨?_,rfl⟩
    by_cases start : 0 < i
    · rw [ends,ends,List.getElem?_append_left (by omega)]
    · rw [ends,ends,if_neg (fun both => start both.1),if_neg (fun both => start both.1)]

/-- An expression that looks behind only where a match has already begun finds the same whatever
stands in front. -/
def behindFree : Regex → Bool
  | .char _ => true
  | .seq first second => behindFree first && behindFree second
  | .alt first second => behindFree first && behindFree second
  | .rep body _ _ => behindFree body
  | .many _ _ => true
  | .notAhead body => behindFree body
  | .notBehind _ => false

private theorem atMost_shift (next next' : Nat → List Nat) (touch touch' : Nat → Bool) (shift : Nat)
    (same : ∀ i, next' (shift + i) = (next i).map (shift + ·) ∧ touch' (shift + i) = touch i)
    (extra i : Nat) :
    atMost next' extra (shift + i) = (atMost next extra i).map (shift + ·) ∧
      atMostTouches next' touch' extra (shift + i) = atMostTouches next touch extra i := by
  induction extra generalizing i with
  | zero => exact ⟨rfl,rfl⟩
  | succ extra ih =>
    constructor
    · simp only [atMost,(same i).1,List.flatMap_map,List.map_append,List.map_flatMap,
        List.map_cons,List.map_nil]
      congr 1
      exact List.flatMap_congr fun e _ => (ih e).1
    · simp only [atMostTouches,(same i).1,(same i).2,List.any_map,Function.comp_def,(ih _).2]

private theorem copies_shift (next next' : Nat → List Nat) (touch touch' : Nat → Bool)
    (shift extra : Nat) (same : ∀ i, next' (shift + i) = (next i).map (shift + ·) ∧
      touch' (shift + i) = touch i) (least i : Nat) :
    copies next' extra least (shift + i) = (copies next extra least i).map (shift + ·) ∧
      copiesTouches next' touch' extra least (shift + i) =
        copiesTouches next touch extra least i := by
  induction least generalizing i with
  | zero => exact atMost_shift next next' touch touch' shift same extra i
  | succ least ih =>
    constructor
    · simp only [copies,(same i).1,List.flatMap_map,List.map_flatMap]
      exact List.flatMap_congr fun e _ => (ih e).1
    · simp only [copiesTouches,(same i).1,(same i).2,List.any_map,Function.comp_def,(ih _).2]

private theorem runLength_prepend (accept : Nat → Bool) (front text : Str) (i : Nat) :
    runLength accept (front ++ text) (front.length + i) = runLength accept text i := by
  rw [runLength,runLength,List.drop_length_add_append]

theorem ends_prepend (regex : Regex) (free : behindFree regex = true) (front text : Str) (i : Nat) :
    ends regex (front ++ text) (front.length + i) = (ends regex text i).map (front.length + ·) ∧
      touches regex (front ++ text) (front.length + i) = touches regex text i := by
  induction regex generalizing i with
  | char accept =>
    constructor
    · rw [ends,ends,List.getElem?_append_right (by omega),Nat.add_sub_cancel_left]
      split_ifs <;> simp [Nat.add_assoc]
    · simp only [touches,List.length_append,Nat.add_le_add_iff_left]
  | seq first second ihFirst ihSecond =>
    simp only [behindFree,Bool.and_eq_true] at free
    obtain ⟨equal,quiet⟩ := ihFirst free.1 i
    have later (e : Nat) := ihSecond free.2 e
    constructor
    · simp only [ends,equal,List.flatMap_map,List.map_flatMap]
      exact List.flatMap_congr fun e _ => (later e).1
    · simp only [touches,equal,quiet,List.any_map,Function.comp_def,(later _).2]
  | alt first second ihFirst ihSecond =>
    simp only [behindFree,Bool.and_eq_true] at free
    obtain ⟨equalFirst,quietFirst⟩ := ihFirst free.1 i
    obtain ⟨equalSecond,quietSecond⟩ := ihSecond free.2 i
    simp only [ends,touches,equalFirst,equalSecond,quietFirst,quietSecond,List.map_append,and_self]
  | rep body least extra ih =>
    exact copies_shift _ _ _ _ front.length extra (fun i => ih free i) least i
  | many accept least =>
    constructor
    · simp only [ends,runLength_prepend,List.map_map]
      refine List.map_congr_left fun short member => ?_
      have := List.mem_range.mp member
      simp only [Function.comp_apply]
      omega
    · simp only [touches,runLength_prepend,List.length_append,Nat.add_assoc,Nat.add_le_add_iff_left]
  | notAhead body ih =>
    obtain ⟨equal,quiet⟩ := ih free i
    refine ⟨?_,quiet⟩
    rw [ends,ends,equal,List.isEmpty_map]
    split_ifs <;> rfl
  | notBehind accept => contradiction

/-- Every code point that the expression can consume is in a class. -/
def Within (accept : Nat → Prop) : Regex → Prop
  | .char class_ => ∀ code, class_ code = true → accept code
  | .seq first second => Within accept first ∧ Within accept second
  | .alt first second => Within accept first ∧ Within accept second
  | .rep body _ _ => Within accept body
  | .many class_ _ => ∀ code, class_ code = true → accept code
  | .notAhead _ => True
  | .notBehind _ => True

/-- The code points from `i` to `e` are all in a class. -/
def Covered (accept : Nat → Prop) (text : Str) (i e : Nat) : Prop :=
  ∀ k, i ≤ k → k < e → ∃ code, text[k]? = some code ∧ accept code

private theorem covered_trans {accept : Nat → Prop} {text : Str} {i m e : Nat}
    (before : Covered accept text i m) (after : Covered accept text m e) :
    Covered accept text i e := by
  intro k low high
  by_cases left : k < m
  · exact before k low left
  · exact after k (by omega) high

private theorem covered_self (accept : Nat → Prop) (text : Str) (i : Nat) :
    Covered accept text i i :=
  fun _ low high => absurd (Nat.lt_of_le_of_lt low high) (Nat.lt_irrefl i)

theorem covered_drop {accept : Nat → Prop} {text : Str} {i : Nat}
    (covered : Covered accept text i text.length) :
    ∀ code ∈ text.drop i, accept code := by
  intro code member
  obtain ⟨k,here⟩ := List.mem_iff_getElem?.mp member
  rw [List.getElem?_drop] at here
  obtain ⟨inside,_⟩ := List.getElem?_eq_some_iff.mp here
  obtain ⟨code',here',known⟩ := covered (i + k) (Nat.le_add_right _ _) inside
  rw [here] at here'
  cases here'
  exact known

private theorem atMost_covered {accept : Nat → Prop} {text : Str} {next : Nat → List Nat}
    (cover : ∀ i, ∀ e ∈ next i, Covered accept text i e) (extra i : Nat) :
    ∀ e ∈ atMost next extra i, Covered accept text i e := by
  induction extra generalizing i with
  | zero =>
    intro e member
    rw [atMost,List.mem_singleton] at member
    exact member ▸ covered_self accept text i
  | succ extra ih =>
    intro e member
    rw [atMost,List.mem_append,List.mem_flatMap,List.mem_singleton] at member
    rcases member with ⟨middle,first,later⟩ | rfl
    · exact covered_trans (cover i middle first) (ih middle e later)
    · exact covered_self accept text e

private theorem copies_covered {accept : Nat → Prop} {text : Str} {next : Nat → List Nat}
    (cover : ∀ i, ∀ e ∈ next i, Covered accept text i e) (extra least i : Nat) :
    ∀ e ∈ copies next extra least i, Covered accept text i e := by
  induction least generalizing i with
  | zero => exact atMost_covered cover extra i
  | succ least ih =>
    intro e member
    rw [copies,List.mem_flatMap] at member
    obtain ⟨middle,first,later⟩ := member
    exact covered_trans (cover i middle first) (ih middle e later)

theorem ends_covered (accept : Nat → Prop) (regex : Regex) (within : Within accept regex)
    (text : Str) (i : Nat) :
    ∀ e ∈ ends regex text i, Covered accept text i e := by
  induction regex generalizing i with
  | char class_ =>
    intro e member
    rw [ends] at member
    split_ifs at member with accepted
    · rw [List.mem_singleton] at member
      intro k low high
      rw [show k = i by omega]
      cases found : text[i]? with
      | none => rw [found] at accepted; contradiction
      | some code => rw [found] at accepted; exact ⟨code,rfl,within code accepted⟩
    · cases member
  | seq first second ihFirst ihSecond =>
    intro e member
    rw [ends,List.mem_flatMap] at member
    obtain ⟨middle,one,two⟩ := member
    exact covered_trans (ihFirst within.1 i middle one) (ihSecond within.2 middle e two)
  | alt first second ihFirst ihSecond =>
    intro e member
    rw [ends,List.mem_append] at member
    rcases member with one | two
    · exact ihFirst within.1 i e one
    · exact ihSecond within.2 i e two
  | rep body least extra ih =>
    exact copies_covered (fun i e member => ih within i e member) extra least i
  | many class_ least =>
    intro e member k low high
    simp only [ends,List.mem_map,List.mem_range] at member
    obtain ⟨short,small,rfl⟩ := member
    have inRun : k - i < ((text.drop i).takeWhile class_).length := by
      simp only [runLength] at high
      omega
    have found := List.getElem?_eq_getElem inRun
    obtain ⟨rest,split⟩ := List.takeWhile_prefix class_ (l := text.drop i)
    have seen : text[k]? = some ((text.drop i).takeWhile class_)[k - i] := by
      have step : (text.drop i)[k - i]? = text[k]? := by rw [List.getElem?_drop]; congr 1; omega
      rw [← step,← found]
      conv_lhs => rw [← split]
      exact List.getElem?_append_left inRun
    exact ⟨_,seen,within _ (List.mem_takeWhile_imp (List.getElem_mem inRun))⟩
  | notAhead body _ =>
    intro e member
    rw [ends] at member
    split_ifs at member
    · rw [List.mem_singleton] at member
      exact member ▸ covered_self accept text i
    · cases member
  | notBehind class_ =>
    intro e member
    rw [ends] at member
    split_ifs at member
    · cases member
    · rw [List.mem_singleton] at member
      exact member ▸ covered_self accept text i

/-- Every code point that the expression can consume or look at is in a class. -/
def Consumes (accept : Nat → Prop) : Regex → Prop
  | .char class_ => ∀ code, class_ code = true → accept code
  | .seq first second => Consumes accept first ∧ Consumes accept second
  | .alt first second => Consumes accept first ∧ Consumes accept second
  | .rep body _ _ => Consumes accept body
  | .many class_ _ => ∀ code, class_ code = true → accept code
  | .notAhead body => Consumes accept body
  | .notBehind _ => True

theorem Consumes.within {accept : Nat → Prop} (regex : Regex) (consumes : Consumes accept regex) :
    Within accept regex := by
  induction regex with
  | char class_ => exact consumes
  | seq first second ihFirst ihSecond => exact ⟨ihFirst consumes.1,ihSecond consumes.2⟩
  | alt first second ihFirst ihSecond => exact ⟨ihFirst consumes.1,ihSecond consumes.2⟩
  | rep body least extra ih => exact ih consumes
  | many class_ least => exact consumes
  | notAhead body _ => trivial
  | notBehind class_ => trivial

theorem consumes_mono {accept accept' : Nat → Prop} (weaker : ∀ code, accept code → accept' code)
    (regex : Regex) (consumes : Consumes accept regex) : Consumes accept' regex := by
  induction regex with
  | char class_ => exact fun code known => weaker code (consumes code known)
  | seq first second ihFirst ihSecond => exact ⟨ihFirst consumes.1,ihSecond consumes.2⟩
  | alt first second ihFirst ihSecond => exact ⟨ihFirst consumes.1,ihSecond consumes.2⟩
  | rep body least extra ih => exact ih consumes
  | many class_ least => exact fun code known => weaker code (consumes code known)
  | notAhead body ih => exact ih consumes
  | notBehind class_ => trivial

theorem consumes_sequence {accept : Nat → Prop} (regexes : List Regex) (some_ : regexes ≠ [])
    (each : ∀ regex ∈ regexes, Consumes accept regex) : Consumes accept (.sequence regexes) := by
  induction regexes with
  | nil => contradiction
  | cons first rest ih =>
    obtain ⟨here,later⟩ := List.forall_mem_cons.mp each
    cases rest with
    | nil => exact here
    | cons second rest => exact ⟨here,ih (List.cons_ne_nil _ _) later⟩

theorem consumes_literal {accept : Nat → Prop} (codes : Str) (some_ : codes ≠ [])
    (each : ∀ code ∈ codes, accept code) :
    Consumes accept (.literal codes) := by
  refine consumes_sequence _ (by simpa using some_) ?_
  rw [List.forall_mem_map]
  intro code member other same
  exact beq_iff_eq.mp same ▸ each code member

private theorem covered_past (accept : Nat → Prop) {text : Str} {i : Nat} (past : text.length ≤ i) :
    Covered accept text i text.length :=
  fun _ low high => absurd high (by omega)

private theorem atMost_touched {accept : Nat → Prop} {text : Str} {next : Nat → List Nat}
    {touch : Nat → Bool} (cover : ∀ i, ∀ e ∈ next i, Covered accept text i e)
    (each : ∀ i, touch i = true → Covered accept text i text.length) (extra i : Nat)
    (touched : atMostTouches next touch extra i = true) : Covered accept text i text.length := by
  induction extra generalizing i with
  | zero => contradiction
  | succ extra ih =>
    rw [atMostTouches,Bool.or_eq_true,List.any_eq_true] at touched
    rcases touched with here | ⟨middle,first,later⟩
    · exact each i here
    · exact covered_trans (cover i middle first) (ih middle later)

private theorem copies_touched {accept : Nat → Prop} {text : Str} {next : Nat → List Nat}
    {touch : Nat → Bool} (cover : ∀ i, ∀ e ∈ next i, Covered accept text i e)
    (each : ∀ i, touch i = true → Covered accept text i text.length) (extra least i : Nat)
    (touched : copiesTouches next touch extra least i = true) :
    Covered accept text i text.length := by
  induction least generalizing i with
  | zero => exact atMost_touched cover each extra i touched
  | succ least ih =>
    rw [copiesTouches,Bool.or_eq_true,List.any_eq_true] at touched
    rcases touched with here | ⟨middle,first,later⟩
    · exact each i here
    · exact covered_trans (cover i middle first) (ih middle later)

/-- An engine that looks past the end has gone there over code points of the class. -/
theorem touches_covered (accept : Nat → Prop) (regex : Regex) (consumes : Consumes accept regex)
    (text : Str) (i : Nat) (touched : touches regex text i = true) :
    Covered accept text i text.length := by
  induction regex generalizing i with
  | char class_ =>
    rw [touches,decide_eq_true_eq] at touched
    exact covered_past accept touched
  | seq first second ihFirst ihSecond =>
    rw [touches,Bool.or_eq_true,List.any_eq_true] at touched
    rcases touched with here | ⟨middle,one,later⟩
    · exact ihFirst consumes.1 i here
    · exact covered_trans (ends_covered accept first (consumes.1.within) text i middle one)
        (ihSecond consumes.2 middle later)
  | alt first second ihFirst ihSecond =>
    rw [touches,Bool.or_eq_true] at touched
    rcases touched with one | two
    · exact ihFirst consumes.1 i one
    · exact ihSecond consumes.2 i two
  | rep body least extra ih =>
    exact copies_touched (fun i e member => ends_covered accept body (Consumes.within body consumes)
      text i e member)
      (fun i here => ih consumes i here) extra least i touched
  | many class_ least =>
    rw [touches,decide_eq_true_eq] at touched
    have run : i + runLength class_ text i ∈ ends (.many class_ 0) text i := by
      simp only [ends,List.mem_map,List.mem_range]
      exact ⟨0,by omega,by omega⟩
    have covered := ends_covered accept (.many class_ 0) consumes text i _ run
    intro k low high
    exact covered k low (by omega)
  | notAhead body ih => exact ih consumes i touched
  | notBehind class_ => contradiction

/-- A match of the expression has at least so many code points of a class. -/
inductive Counts (counted : Nat → Bool) : Regex → Nat → Prop
  | any (regex : Regex) : Counts counted regex 0
  | char {accept : Nat → Bool} : (∀ code, accept code = true → counted code = true) →
      Counts counted (.char accept) 1
  | seq {first second : Regex} {m n : Nat} : Counts counted first m → Counts counted second n →
      Counts counted (.seq first second) (m + n)
  | alt {first second : Regex} {n : Nat} : Counts counted first n → Counts counted second n →
      Counts counted (.alt first second) n
  | rep {body : Regex} {n : Nat} (least extra : Nat) :
      Counts counted body n → Counts counted (.rep body least extra) (least * n)

private theorem copies_counts {counted : Nat → Bool} {text : Str} {next : Nat → List Nat}
    {n extra : Nat} (bound : ∀ i ≤ text.length, ∀ e ∈ next i, i ≤ e ∧ e ≤ text.length)
    (each : ∀ i ≤ text.length, ∀ e ∈ next i, n ≤ (slice text i e).countP counted) (least i : Nat)
    (inside : i ≤ text.length) :
    ∀ e ∈ copies next extra least i, least * n ≤ (slice text i e).countP counted := by
  induction least generalizing i with
  | zero =>
    intro e _
    rw [Nat.zero_mul]
    exact Nat.zero_le _
  | succ least ih =>
    intro e member
    rw [copies,List.mem_flatMap] at member
    obtain ⟨middle,first,later⟩ := member
    have step := bound i inside middle first
    have rest := copies_bound next text.length 0 extra (fun i inside e member =>
      bound i inside e member) least middle
      step.2 e later
    have here := each i inside middle first
    have there := ih middle step.2 e later
    rw [slice_append step.1 (by omega) rest.2,List.countP_append,Nat.succ_mul]
    omega

theorem counts_ends {counted : Nat → Bool} {regex : Regex} {n : Nat}
    (counts : Counts counted regex n) {text : Str} {i : Nat} (inside : i ≤ text.length) :
    ∀ e ∈ ends regex text i, n ≤ (slice text i e).countP counted := by
  induction counts generalizing i with
  | any regex => exact fun e _ => Nat.zero_le _
  | @char accept within =>
    intro e member
    rw [ends] at member
    split_ifs at member with accepted
    · rw [List.mem_singleton] at member
      subst member
      cases found : text[i]? with
      | none => rw [found] at accepted; contradiction
      | some code =>
        rw [found] at accepted
        rw [slice_one found,List.countP_singleton,if_pos (within code accepted)]
    · cases member
  | @seq first second m n _ _ ihFirst ihSecond =>
    intro e member
    rw [ends,List.mem_flatMap] at member
    obtain ⟨middle,one,two⟩ := member
    have before := ends_bound first text i inside middle one
    have after := ends_bound second text middle before.2 e two
    have here := ihFirst inside middle one
    have there := ihSecond before.2 e two
    rw [slice_append (by omega : i ≤ middle) (by omega) after.2,List.countP_append]
    omega
  | alt _ _ ihFirst ihSecond =>
    intro e member
    rw [ends,List.mem_append] at member
    rcases member with one | two
    · exact ihFirst inside e one
    · exact ihSecond inside e two
  | @rep body n least extra _ ih =>
    refine copies_counts (fun i inside e member => ?_) (fun i inside => ih inside) least i inside
    have := ends_bound body text i inside e member
    omega

theorem counts_sequence {counted : Nat → Bool} {regex : Regex} {n : Nat} {regexes : List Regex}
    (member : regex ∈ regexes) (counts : Counts counted regex n) :
    Counts counted (.sequence regexes) n := by
  induction regexes with
  | nil => contradiction
  | cons first rest ih =>
    cases rest with
    | nil =>
      obtain rfl := List.mem_singleton.mp member
      exact counts
    | cons second rest =>
      rcases List.mem_cons.mp member with rfl | later
      · exact .seq counts (.any _)
      · have within : Counts counted (.sequence (first::second::rest)) (0 + n) :=
          .seq (.any _) (ih later)
        rwa [Nat.zero_add] at within

theorem counts_literal {counted : Nat → Bool} {code : Nat} {codes : Str} (member : code ∈ codes)
    (known : counted code = true) :
    Counts counted (.literal codes) 1 := by
  apply counts_sequence (List.mem_map_of_mem member)
  refine .char (fun other same => ?_)
  rw [beq_iff_eq.mp same]
  exact known

/-- How far `n` copies look, when one is at most `size` long and looks `reach` far. -/
def copiesReach (size reach : Nat) : Nat → Nat
  | 0 => 0
  | n+1 => n * size + max size reach

/-- For an expression without `many`: the greatest length of a match, and how far past its start
the search for one can look. -/
def span : Regex → Option (Nat × Nat)
  | .char _ => some (1,1)
  | .seq first second => do
    let (size,reach) ← span first
    let (size',reach') ← span second
    return (size + size',max reach (size + reach'))
  | .alt first second => do
    let (size,reach) ← span first
    let (size',reach') ← span second
    return (max size size',max reach reach')
  | .rep body least extra => do
    let (size,reach) ← span body
    return ((least + extra) * size,copiesReach size reach (least + extra))
  | .many _ _ => none
  | .notAhead body => do
    let (_,reach) ← span body
    return (0,reach)
  | .notBehind _ => some (0,0)

private theorem atMost_size (next : Nat → List Nat) (size : Nat)
    (short : ∀ i, ∀ e ∈ next i, e ≤ i + size) (extra i : Nat) :
    ∀ e ∈ atMost next extra i, e ≤ i + extra * size := by
  induction extra generalizing i with
  | zero =>
    intro e member
    rw [atMost,List.mem_singleton] at member
    omega
  | succ extra ih =>
    intro e member
    rw [atMost,List.mem_append,List.mem_flatMap,List.mem_singleton] at member
    rw [Nat.add_mul,Nat.one_mul]
    rcases member with ⟨middle,first,later⟩ | rfl
    · have here := short i middle first
      have there := ih middle e later
      omega
    · omega

private theorem copies_size (next : Nat → List Nat) (size extra : Nat)
    (short : ∀ i, ∀ e ∈ next i, e ≤ i + size) (least i : Nat) :
    ∀ e ∈ copies next extra least i, e ≤ i + (least + extra) * size := by
  induction least generalizing i with
  | zero =>
    intro e member
    rw [Nat.zero_add]
    exact atMost_size next size short extra i e member
  | succ least ih =>
    intro e member
    rw [copies,List.mem_flatMap] at member
    obtain ⟨middle,first,later⟩ := member
    have here := short i middle first
    have there := ih middle e later
    have split : (least + 1 + extra) * size = (least + extra) * size + size := by
      rw [← Nat.add_one_mul,Nat.add_right_comm]
    omega

theorem ends_size (regex : Regex) (text : Str) (size reach : Nat)
    (bounded : span regex = some (size,reach)) (i : Nat) :
    ∀ e ∈ ends regex text i, e ≤ i + size := by
  induction regex generalizing i size reach with
  | char accept =>
    cases bounded
    intro e member
    rw [ends] at member
    split_ifs at member
    · exact (List.mem_singleton.mp member).le
    · cases member
  | seq first second ihFirst ihSecond =>
    simp only [span,Option.bind_eq_bind,Option.bind_eq_some_iff,Prod.exists] at bounded
    obtain ⟨size1,reach1,one,size2,reach2,two,same⟩ := bounded
    cases same
    intro e member
    rw [ends,List.mem_flatMap] at member
    obtain ⟨middle,before,after⟩ := member
    have here := ihFirst size1 reach1 one i middle before
    have there := ihSecond size2 reach2 two middle e after
    omega
  | alt first second ihFirst ihSecond =>
    simp only [span,Option.bind_eq_bind,Option.bind_eq_some_iff,Prod.exists] at bounded
    obtain ⟨size1,reach1,one,size2,reach2,two,same⟩ := bounded
    cases same
    intro e member
    rw [ends,List.mem_append] at member
    rcases member with left | right
    · have := ihFirst size1 reach1 one i e left
      omega
    · have := ihSecond size2 reach2 two i e right
      omega
  | rep body least extra ih =>
    simp only [span,Option.bind_eq_bind,Option.bind_eq_some_iff,Prod.exists] at bounded
    obtain ⟨size1,reach1,one,same⟩ := bounded
    cases same
    exact copies_size _ size1 extra (fun i => ih size1 reach1 one i) least i
  | many accept least => contradiction
  | notAhead body ih =>
    simp only [span,Option.bind_eq_bind,Option.bind_eq_some_iff,Prod.exists] at bounded
    obtain ⟨size1,reach1,one,same⟩ := bounded
    cases same
    intro e member
    rw [ends] at member
    split_ifs at member
    · exact (List.mem_singleton.mp member).le
    · cases member
  | notBehind accept =>
    cases bounded
    intro e member
    rw [ends] at member
    split_ifs at member
    · cases member
    · exact (List.mem_singleton.mp member).le

private theorem copiesReach_succ (size reach n : Nat) : reach ≤ copiesReach size reach (n + 1) ∧
    size + copiesReach size reach n ≤ copiesReach size reach (n + 1) := by
  cases n with
  | zero => simp only [copiesReach]; omega
  | succ n =>
    have split : (n + 1) * size = n * size + size := Nat.succ_mul n size
    have positive : 0 ≤ n * size := Nat.zero_le _
    simp only [copiesReach]
    omega

private theorem atMost_settled (next : Nat → List Nat) (touch : Nat → Bool) (size reach limit : Nat)
    (short : ∀ i, ∀ e ∈ next i, e ≤ i + size) (quiet : ∀ i, i + reach ≤ limit → touch i = false)
    (extra i : Nat) (far : i + copiesReach size reach extra ≤ limit) :
    atMostTouches next touch extra i = false := by
  induction extra generalizing i with
  | zero => rfl
  | succ extra ih =>
    have grows := copiesReach_succ size reach extra
    simp only [atMostTouches,Bool.or_eq_false_iff,List.any_eq_false,Bool.not_eq_true]
    refine ⟨quiet i (by omega),fun e member => ih e ?_⟩
    have := short i e member
    omega

private theorem copies_settled (next : Nat → List Nat) (touch : Nat → Bool)
    (size reach limit extra : Nat) (short : ∀ i, ∀ e ∈ next i, e ≤ i + size)
    (quiet : ∀ i, i + reach ≤ limit → touch i = false) (least i : Nat)
    (far : i + copiesReach size reach (least + extra) ≤ limit) :
    copiesTouches next touch extra least i = false := by
  induction least generalizing i with
  | zero =>
    rw [Nat.zero_add] at far
    exact atMost_settled next touch size reach limit short quiet extra i far
  | succ least ih =>
    have grows := copiesReach_succ size reach (least + extra)
    rw [Nat.add_right_comm] at far
    simp only [copiesTouches,Bool.or_eq_false_iff,List.any_eq_false,Bool.not_eq_true]
    refine ⟨quiet i (by omega),fun e member => ih e ?_⟩
    have := short i e member
    omega

/-- Within its reach the search for a match does not meet the end of the text. -/
theorem touches_of_reach (regex : Regex) (text : Str) (size reach : Nat)
    (bounded : span regex = some (size,reach)) (i : Nat) (far : i + reach ≤ text.length) :
    touches regex text i = false := by
  induction regex generalizing i size reach with
  | char accept =>
    cases bounded
    simp only [touches,decide_eq_false_iff_not]
    omega
  | seq first second ihFirst ihSecond =>
    simp only [span,Option.bind_eq_bind,Option.bind_eq_some_iff,Prod.exists] at bounded
    obtain ⟨size1,reach1,one,size2,reach2,two,same⟩ := bounded
    cases same
    simp only [touches,Bool.or_eq_false_iff,List.any_eq_false,Bool.not_eq_true]
    refine ⟨ihFirst size1 reach1 one i (by omega),fun e member => ihSecond size2 reach2 two e ?_⟩
    have := ends_size first text size1 reach1 one i e member
    omega
  | alt first second ihFirst ihSecond =>
    simp only [span,Option.bind_eq_bind,Option.bind_eq_some_iff,Prod.exists] at bounded
    obtain ⟨size1,reach1,one,size2,reach2,two,same⟩ := bounded
    cases same
    simp only [touches,ihFirst size1 reach1 one i (by omega),ihSecond size2 reach2 two i (by omega),
      Bool.or_self]
  | rep body least extra ih =>
    simp only [span,Option.bind_eq_bind,Option.bind_eq_some_iff,Prod.exists] at bounded
    obtain ⟨size1,reach1,one,same⟩ := bounded
    cases same
    exact copies_settled _ _ size1 reach1 text.length extra (ends_size body text size1 reach1 one)
      (ih size1 reach1 one) least i far
  | many accept least => contradiction
  | notAhead body ih =>
    simp only [span,Option.bind_eq_bind,Option.bind_eq_some_iff,Prod.exists] at bounded
    obtain ⟨size1,reach1,one,same⟩ := bounded
    cases same
    exact ih size1 reach one i far
  | notBehind accept => rfl

/-- A bounded expression that does not look behind finds in a window what it finds in every text
that has the window at the place. -/
theorem ends_window (regex : Regex) (free : behindFree regex = true) (size reach : Nat)
    (bounded : span regex = some (size,reach)) (left window right : Str)
    (wide : reach ≤ window.length) :
    ends regex (left ++ (window ++ right)) left.length =
      (ends regex window 0).map (left.length + ·) := by
  have settled := touches_of_reach regex window size reach bounded 0 (by omega)
  rw [← (ends_append regex window right 0 (Nat.zero_le _) settled).1]
  exact (ends_prepend regex free left (window ++ right) 0).1

/-- Nothing beside a match is looked at. -/
def lookFree : Regex → Bool
  | .char _ => true
  | .seq first second => lookFree first && lookFree second
  | .alt first second => lookFree first && lookFree second
  | .rep body _ _ => lookFree body
  | .many _ _ => true
  | .notAhead _ => false
  | .notBehind _ => false

/-- So many code points are the same from the one place in the one text and from the other in the other. -/
def Agree (text text' : Str) (i j size : Nat) : Prop := ∀ k < size, text'[j + k]? = text[i + k]?

variable {text text' : Str}

private theorem agree_drop {i j size d : Nat} (agree : Agree text text' i j size)
    (inside : d ≤ size) :
    Agree text text' (i + d) (j + d) (size - d) := by
  intro k below
  rw [Nat.add_assoc,Nat.add_assoc]
  exact agree (d + k) (by omega)

private theorem le_takeWhile_iff (accept : Nat → Bool) (text : Str) (n : Nat) :
    n ≤ (text.takeWhile accept).length ↔ ∀ k < n, text[k]?.any accept = true := by
  induction text generalizing n with
  | nil =>
    rw [List.takeWhile_nil,List.length_nil]
    refine ⟨fun none_ k below => by omega,fun all => ?_⟩
    by_contra some_
    have first := all 0 (by omega)
    rw [List.getElem?_nil] at first
    contradiction
  | cons code text ih =>
    cases n with
    | zero => exact iff_of_true (Nat.zero_le _) (fun k below => absurd below (Nat.not_lt_zero k))
    | succ n =>
      rw [List.takeWhile_cons]
      constructor
      · intro long k below
        by_cases known : accept code = true
        · rw [if_pos known,List.length_cons,Nat.add_le_add_iff_right,ih] at long
          cases k with
          | zero => exact known
          | succ k => exact long k (by omega)
        · rw [if_neg known] at long
          contradiction
      · intro all
        have known : accept code = true := all 0 (Nat.succ_pos n)
        rw [if_pos known,List.length_cons,Nat.add_le_add_iff_right,ih]
        exact fun k below => all (k + 1) (Nat.succ_lt_succ below)

private theorem le_runLength_iff (accept : Nat → Bool) (text : Str) (i n : Nat) :
    n ≤ runLength accept text i ↔ ∀ k < n, text[i + k]?.any accept = true := by
  rw [runLength,le_takeWhile_iff]
  simp only [List.getElem?_drop]

private theorem atMost_same {next next' : Nat → List Nat} {limit : Nat}
    (bound : ∀ i ≤ limit, ∀ e ∈ next i, i ≤ e ∧ e ≤ limit)
    (each : ∀ {i j size e}, i ≤ limit → Agree text text' i j size → e ≤ size → i + e ∈ next i →
      j + e ∈ next' j)
    {extra i j size e : Nat} (inside : i ≤ limit) (agree : Agree text text' i j size)
    (short : e ≤ size) (member : i + e ∈ atMost next extra i) : j + e ∈ atMost next' extra j := by
  induction extra generalizing i j size e with
  | zero =>
    rw [atMost,List.mem_singleton] at member ⊢
    omega
  | succ extra ih =>
    rw [atMost,List.mem_append,List.mem_flatMap,List.mem_singleton] at member ⊢
    rcases member with ⟨middle,first,later⟩ | here
    · obtain ⟨low,high⟩ := bound i inside middle first
      have onward := atMost_bound next limit bound extra middle high (i + e) later
      obtain ⟨d,rfl⟩ : ∃ d, middle = i + d := ⟨middle - i,by omega⟩
      obtain ⟨e,rfl⟩ : ∃ e', e = d + e' := ⟨e - d,by omega⟩
      rw [← Nat.add_assoc] at later ⊢
      exact Or.inl ⟨j + d,each inside agree (by omega) first,ih high (agree_drop agree (by omega))
        (by omega) later⟩
    · exact Or.inr (by omega)

private theorem copies_same {next next' : Nat → List Nat} {limit : Nat}
    (bound : ∀ i ≤ limit, ∀ e ∈ next i, i ≤ e ∧ e ≤ limit)
    (each : ∀ {i j size e}, i ≤ limit → Agree text text' i j size → e ≤ size → i + e ∈ next i →
      j + e ∈ next' j)
    {extra least i j size e : Nat} (inside : i ≤ limit) (agree : Agree text text' i j size)
    (short : e ≤ size) (member : i + e ∈ copies next extra least i) :
    j + e ∈ copies next' extra least j := by
  induction least generalizing i j size e with
  | zero => exact atMost_same bound each inside agree short member
  | succ least ih =>
    rw [copies,List.mem_flatMap] at member ⊢
    obtain ⟨middle,first,later⟩ := member
    obtain ⟨low,high⟩ := bound i inside middle first
    have onward := copies_bound next limit 0 extra bound least middle high (i + e) later
    obtain ⟨d,rfl⟩ : ∃ d, middle = i + d := ⟨middle - i,by omega⟩
    obtain ⟨e,rfl⟩ : ∃ e', e = d + e' := ⟨e - d,by omega⟩
    rw [← Nat.add_assoc] at later ⊢
    exact ⟨j + d,each inside agree (by omega) first,ih high (agree_drop agree (by omega))
      (by omega) later⟩

/-- A match of an expression that looks at nothing beside it is one wherever the same code points are. -/
theorem ends_same (regex : Regex) (free : lookFree regex = true) {i j size e : Nat}
    (inside : i ≤ text.length) (agree : Agree text text' i j size) (short : e ≤ size)
    (member : i + e ∈ ends regex text i) : j + e ∈ ends regex text' j := by
  have bound (regex : Regex) (i : Nat) (inside : i ≤ text.length) : ∀ e ∈ ends regex text i, i ≤ e ∧
    e ≤ text.length := by
    intro e member
    have := ends_bound regex text i inside e member
    omega
  induction regex generalizing i j size e with
  | char accept =>
    rw [ends] at member ⊢
    split_ifs at member with here
    · obtain rfl : e = 1 := by
        have := List.mem_singleton.mp member
        omega
      have same := agree 0 (by omega)
      rw [Nat.add_zero,Nat.add_zero] at same
      rw [same,if_pos here]
      exact List.mem_singleton_self _
    · contradiction
  | seq first second ihFirst ihSecond =>
    rw [lookFree,Bool.and_eq_true] at free
    rw [ends,List.mem_flatMap] at member ⊢
    obtain ⟨middle,one,two⟩ := member
    obtain ⟨low,high⟩ := bound first i inside middle one
    have onward := bound second middle high (i + e) two
    obtain ⟨d,rfl⟩ : ∃ d, middle = i + d := ⟨middle - i,by omega⟩
    obtain ⟨e,rfl⟩ : ∃ e', e = d + e' := ⟨e - d,by omega⟩
    rw [← Nat.add_assoc] at two ⊢
    exact ⟨j + d,ihFirst free.1 inside agree (by omega) one,
      ihSecond free.2 high (agree_drop agree (by omega)) (by omega) two⟩
  | alt first second ihFirst ihSecond =>
    rw [lookFree,Bool.and_eq_true] at free
    rw [ends,List.mem_append] at member ⊢
    exact member.imp (ihFirst free.1 inside agree short) (ihSecond free.2 inside agree short)
  | rep body least extra ih =>
    exact copies_same (bound body) (fun inside agree short member =>
      ih free inside agree short member) inside agree short member
  | many accept least =>
    simp only [ends,List.mem_map,List.mem_range] at member ⊢
    obtain ⟨less,fewer,same⟩ := member
    have run : e ≤ runLength accept text' j := by
      rw [le_runLength_iff]
      intro k below
      have here : k < runLength accept text i := by omega
      rw [agree k (by omega)]
      exact (le_runLength_iff accept text i (k + 1)).mp here k (Nat.lt_succ_self k)
    exact ⟨runLength accept text' j - e,by omega,by omega⟩
  | notAhead body => contradiction
  | notBehind accept => contradiction

/-- A guard behind the place decides whether the rest is tried. -/
theorem ends_guarded (accept : Nat → Bool) (regex : Regex) (text : Str) (i : Nat) :
    ends (.seq (.notBehind accept) regex) text i = if 0 < i ∧ text[i - 1]?.any accept then []
      else ends regex text i := by
  rw [ends,ends]
  split_ifs with behind
  · rfl
  · exact List.flatMap_singleton _ _

theorem mem_ends_alt (first second : Regex) (text : Str) (i e : Nat) :
    e ∈ ends (.alt first second) text i ↔ e ∈ ends first text i ∨ e ∈ ends second text i := by
  rw [ends,List.mem_append]

theorem mem_ends_ahead (regex : Regex) (accept : Nat → Bool) (text : Str) (i e : Nat) :
    e ∈ ends (.seq regex (.notAhead (.char accept))) text i ↔ e ∈ ends regex text i ∧
    text[e]?.any accept = false := by
  have ahead (m : Nat) : ends (.notAhead (.char accept)) text m = if text[m]?.any accept then []
    else [m] := by
    rw [ends,ends]
    split_ifs <;> first | rfl | contradiction
  rw [ends,List.mem_flatMap]
  constructor
  · rintro ⟨middle,here,next⟩
    rw [ahead] at next
    split_ifs at next with follows
    · contradiction
    · obtain rfl := List.mem_singleton.mp next
      exact ⟨here,Bool.eq_false_iff.mpr follows⟩
  · rintro ⟨here,clear⟩
    refine ⟨e,here,?_⟩
    rw [ahead,clear]
    exact List.mem_singleton_self e

/-- A match that ends with a run can go on to the end of the run. -/
theorem ends_run {first : Regex} {accept : Nat → Bool} {least i e : Nat}
    (member : e ∈ ends (.seq first (.many accept least)) text i) :
    ∃ e' ∈ ends (.seq first (.many accept least)) text i, text[e']?.any accept = false := by
  rw [ends,List.mem_flatMap] at member
  obtain ⟨middle,here,later⟩ := member
  simp only [ends,List.mem_map,List.mem_range] at later
  obtain ⟨less,fewer,_⟩ := later
  refine ⟨middle + runLength accept text middle,?_,?_⟩
  · rw [ends,List.mem_flatMap]
    refine ⟨middle,here,?_⟩
    simp only [ends,List.mem_map,List.mem_range]
    exact ⟨0,by omega,by omega⟩
  · by_contra goes
    rw [Bool.not_eq_false] at goes
    have longer : runLength accept text middle + 1 ≤ runLength accept text middle := by
      rw [le_runLength_iff]
      intro k below
      rcases Nat.lt_or_eq_of_le (Nat.le_of_lt_succ below) with before | rfl
      · exact (le_runLength_iff accept text middle (k + 1)).mp before k (Nat.lt_succ_self k)
      · exact goes
    omega

/-- No match is empty, and the last code point of each is in a class. -/
def Trailing (accept : Nat → Bool) (regex : Regex) : Prop :=
  ∀ text i, i ≤ text.length → ∀ e ∈ ends regex text i,
  i < e ∧ text[e - 1]?.any accept = true

theorem trailing_within {accept : Nat → Bool} {regex : Regex}
    (within : Within (fun code => accept code = true) regex) (filled : 0 < minLength regex) :
    Trailing accept regex := by
  intro text i inside e member
  have bound := ends_bound regex text i inside e member
  obtain ⟨code,here,known⟩ :=
    ends_covered _ regex within text i e member (e - 1) (by omega) (by omega)
  refine ⟨by omega,?_⟩
  rw [here]
  exact known

theorem trailing_seq {accept : Nat → Bool} {first second : Regex}
    (trailing : Trailing accept second) :
    Trailing accept (.seq first second) := by
  intro text i inside e member
  rw [ends,List.mem_flatMap] at member
  obtain ⟨middle,here,later⟩ := member
  have bound := ends_bound first text i inside middle here
  obtain ⟨longer,known⟩ := trailing text middle bound.2 e later
  exact ⟨by omega,known⟩

theorem trailing_alt {accept : Nat → Bool} {first second : Regex} (one : Trailing accept first)
    (two : Trailing accept second) :
    Trailing accept (.alt first second) := by
  intro text i inside e member
  rw [ends,List.mem_append] at member
  exact member.elim (one text i inside e) (two text i inside e)

/-- The first code point of each match is in a class. -/
def Leading (accept : Nat → Bool) (regex : Regex) : Prop :=
  ∀ text i, ends regex text i ≠ [] → text[i]?.any accept = true

theorem leading_char {accept among : Nat → Bool}
    (weaker : ∀ code, among code = true → accept code = true) :
    Leading accept (.char among) := by
  intro text i matched
  rw [ends] at matched
  cases here : text[i]? with
  | none =>
    rw [here] at matched
    exact absurd rfl matched
  | some code =>
    rw [here] at matched
    by_contra other
    have outside : among code = false :=
      Bool.eq_false_iff.mpr (fun known => other (weaker code known))
    rw [Option.any_some,outside] at matched
    exact matched rfl

theorem leading_seq {accept : Nat → Bool} {first second : Regex} (leading : Leading accept first) :
    Leading accept (.seq first second) := by
  intro text i matched
  apply leading text i
  intro empty
  rw [ends,empty] at matched
  exact matched rfl

theorem leading_alt {accept : Nat → Bool} {first second : Regex} (one : Leading accept first)
    (two : Leading accept second) :
    Leading accept (.alt first second) := by
  intro text i matched
  rw [ends] at matched
  by_cases empty : ends first text i = []
  · rw [empty] at matched
    exact two text i matched
  · exact one text i empty

end QuilrMcp.Library.Search
