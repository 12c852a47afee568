import Mathlib.Data.List.Basic
import Mathlib.Tactic.Common

/-! Text as a sequence of Unicode code points, surrogates included, and bytes as a
sequence of octets. Two surrogates that stand side by side are two code points
until a codec that writes them as an escape pair reads them back as one. -/
namespace QuilrMcp.Library.Text

abbrev Str := List Nat
abbrev Bytes := List Nat

instance : LawfulBEq Str := inferInstanceAs (LawfulBEq (List Nat))

def lit (text : String) : Str := text.toList.map Char.toNat

/-- `text[start:stop]` -/
def slice (text : Str) (start stop : Nat) : Str := (text.take stop).drop start

/-- `text.find(part)` -/
def find (part : Str) : Str → Option Nat
  | [] => if part.isPrefixOf [] then some 0 else none
  | code::rest => if part.isPrefixOf (code::rest) then some 0 else (find part rest).map (· + 1)

def isHigh (code : Nat) : Bool := 0xD800 ≤ code && code ≤ 0xDBFF
def isLow (code : Nat) : Bool := 0xDC00 ≤ code && code ≤ 0xDFFF
def isSurrogate (code : Nat) : Bool := 0xD800 ≤ code && code ≤ 0xDFFF

/-- The code point that a high and a low surrogate encode together. -/
@[irreducible] def joinPair (high low : Nat) : Nat :=
  0x10000 + (high - 0xD800) * 0x400 + (low - 0xDC00)

/-- Read every high surrogate that a low one follows as the pair they spell. -/
def joinSurrogates : Str → Str
  | [] => []
  | [code] => [code]
  | first::second::rest =>
    if isHigh first && isLow second then joinPair first second::joinSurrogates rest
    else first::joinSurrogates (second::rest)

/-- No high surrogate stands directly before a low one. -/
def PairFree : Str → Prop
  | [] => True
  | [_] => True
  | first::second::rest => ¬ (isHigh first = true ∧ isLow second = true) ∧ PairFree (second::rest)

instance decidablePairFree : (text : Str) → Decidable (PairFree text)
  | [] => .isTrue trivial
  | [_] => .isTrue trivial
  | first::second::rest =>
    have := decidablePairFree (second::rest)
    inferInstanceAs (Decidable (¬ (isHigh first = true ∧ isLow second = true) ∧
      PairFree (second::rest)))

theorem drop_slice {text : Str} {start stop : Nat} (order : start ≤ stop)
    (inside : stop ≤ text.length) :
    text.drop start = slice text start stop ++ text.drop stop := by
  have reach : start ≤ (text.take stop).length := by rw [List.length_take]; omega
  rw [slice,← List.drop_append_of_le_length reach,List.take_append_drop]

theorem take_slice {text : Str} {start stop : Nat} (order : start ≤ stop) :
    text.take start ++ slice text start stop = text.take stop := by
  have front : text.take start = (text.take stop).take start := by
    rw [List.take_take,Nat.min_eq_left order]
  rw [front,slice,List.take_append_drop]

theorem length_slice {text : Str} {start stop : Nat} (inside : stop ≤ text.length) :
    (slice text start stop).length = stop - start := by
  rw [slice,List.length_drop,List.length_take,Nat.min_eq_left inside]

theorem slice_append {text : Str} {start middle stop : Nat} (first : start ≤ middle)
    (second : middle ≤ stop) (inside : stop ≤ text.length) :
    slice text start stop = slice text start middle ++ slice text middle stop := by
  have reach : middle ≤ (text.take stop).length := by rw [List.length_take]; omega
  have split := drop_slice first reach
  rwa [slice,List.take_take,Nat.min_eq_left second] at split

theorem slice_one {text : Str} {i code : Nat} (found : text[i]? = some code) :
    slice text i (i + 1) = [code] := by
  obtain ⟨inside,here⟩ := List.getElem?_eq_some_iff.mp found
  rw [slice,List.drop_take,List.drop_eq_getElem_cons inside,here]
  simp

theorem find_some {part text : Str} {i : Nat} (found : find part text = some i) :
    ∃ before after, text = before ++ (part ++ after) ∧ before.length = i := by
  induction text generalizing i with
  | nil =>
    rw [find] at found
    split_ifs at found with here
    obtain ⟨after,shape⟩ := List.isPrefixOf_iff_prefix.mp here
    exact ⟨[],after,shape.symm,Option.some.inj found⟩
  | cons code rest ih =>
    rw [find] at found
    split_ifs at found with here
    · obtain ⟨after,shape⟩ := List.isPrefixOf_iff_prefix.mp here
      exact ⟨[],after,shape.symm,Option.some.inj found⟩
    · obtain ⟨j,later,rfl⟩ := Option.map_eq_some_iff.mp found
      obtain ⟨before,after,shape,size⟩ := ih later
      exact ⟨code::before,after,by rw [shape,List.cons_append],by rw [List.length_cons,size]⟩

theorem find_none_iff (part text : Str) : find part text = none ↔ ¬ part <:+: text := by
  induction text with
  | nil =>
    rw [find,List.infix_nil]
    cases part <;> simp
  | cons code rest ih =>
    rw [find,List.infix_cons_iff,← List.isPrefixOf_iff_prefix]
    split_ifs with here
    · simp [here]
    · simp [here,ih]

theorem find_append {part text : Str} {i : Nat} (found : find part text = some i) (more : Str) :
    find part (text ++ more) = some i := by
  induction text generalizing i with
  | nil =>
    rw [find] at found
    split_ifs at found with here
    rw [List.isPrefixOf_iff_prefix,List.prefix_nil] at here
    rw [here,← found]
    cases more <;> rfl
  | cons code rest ih =>
    rw [find] at found
    rw [List.cons_append,find]
    split_ifs at found with here
    · have longer : part <+: code::(rest ++ more) :=
        (List.isPrefixOf_iff_prefix.mp here).trans (List.prefix_append (code::rest) more)
      rw [if_pos (List.isPrefixOf_iff_prefix.mpr longer),found]
    · obtain ⟨j,later,rfl⟩ := Option.map_eq_some_iff.mp found
      obtain ⟨before,after,shape,_⟩ := find_some later
      have other : ¬ part.isPrefixOf (code::(rest ++ more)) = true := by
        intro longer
        rw [List.isPrefixOf_iff_prefix] at longer here
        have short : part.length ≤ (code::rest).length := by
          simp only [shape,List.length_cons,List.length_append]
          omega
        exact here (List.prefix_of_prefix_length_le longer
          (List.prefix_append (code::rest) more) short)
      rw [if_neg other,ih later]
      rfl

theorem find_drop {part text : Str} {i k : Nat} (found : find part text = some i) (reach : k ≤ i) :
    find part (text.drop k) = some (i - k) := by
  induction text generalizing i k with
  | nil =>
    rw [find] at found
    split_ifs at found with here
    obtain rfl := Option.some.inj found
    obtain rfl : k = 0 := by omega
    rw [List.drop_zero,find,if_pos here]
  | cons code rest ih =>
    cases k with
    | zero => exact found
    | succ k =>
      rw [find] at found
      split_ifs at found with here
      · obtain rfl := Option.some.inj found
        omega
      · obtain ⟨j,later,rfl⟩ := Option.map_eq_some_iff.mp found
        rw [List.drop_succ_cons,ih later (by omega),Nat.add_sub_add_right]

/-- A stretch without the code that divides a text lies on one side of it. -/
theorem infix_divided {window front back : Str} {code : Nat} (filled : window ≠ [])
    (outside : code ∉ window) :
    window <:+: front ++ code::back ↔ window <:+: front ∨ window <:+: back := by
  constructor
  · rintro ⟨left,right,shape⟩
    rcases List.append_eq_append_iff.mp shape with ⟨more,first,_⟩ | ⟨more,first,second⟩
    · exact Or.inl ⟨left,more,first.symm⟩
    · cases more with
      | nil =>
        rw [List.append_nil] at first
        exact Or.inl ⟨left,[],by rw [List.append_nil,first]⟩
      | cons head more =>
        obtain ⟨rfl,rest⟩ := List.cons.inj second
        rcases List.append_eq_append_iff.mp first with ⟨inner,_,whole⟩ | ⟨inner,_,whole⟩
        · exact absurd (by simp [whole]) outside
        · cases inner with
          | nil =>
            cases window with
            | nil => exact absurd rfl filled
            | cons head window =>
              obtain ⟨rfl,_⟩ := List.cons.inj whole
              exact absurd List.mem_cons_self outside
          | cons head inner =>
            obtain ⟨_,tail⟩ := List.cons.inj whole
            exact Or.inr ⟨inner,right,by simp [rest,tail]⟩
  · rintro (inside | inside)
    · exact inside.trans (List.prefix_append _ _).isInfix
    · exact inside.trans ⟨front ++ [code],[],by simp⟩

theorem joinSurrogates_of_pairFree (text : Str) (free : PairFree text) :
    joinSurrogates text = text := by
  induction text with
  | nil => rfl
  | cons first rest ih =>
    cases rest with
    | nil => rfl
    | cons second rest =>
      obtain ⟨apart,free⟩ := free
      have unpaired : ¬ (isHigh first && isLow second) = true := by simpa using apart
      rw [joinSurrogates,if_neg unpaired,ih free]

theorem joinPair_astral (high low : Nat) : 0x10000 ≤ joinPair high low := by
  unfold joinPair
  omega

theorem joinPair_unpaired (high low : Nat) :
    isHigh (joinPair high low) = false ∧ isLow (joinPair high low) = false := by
  have := joinPair_astral high low
  simp only [isHigh,isLow,Bool.and_eq_false_iff,decide_eq_false_iff_not]
  omega

/-- A joined text begins with its first code point or with a pair that is no surrogate. -/
theorem joinSurrogates_head (first : Nat) (rest : Str) :
    ∃ head tail, joinSurrogates (first::rest) = head::tail ∧
    (head = first ∨ isLow head = false) := by
  cases rest with
  | nil => exact ⟨first,[],rfl,Or.inl rfl⟩
  | cons second rest =>
    by_cases paired : (isHigh first && isLow second) = true
    · exact ⟨_,_,by rw [joinSurrogates,if_pos paired],Or.inr (joinPair_unpaired _ _).2⟩
    · exact ⟨_,_,by rw [joinSurrogates,if_neg paired],Or.inl rfl⟩

theorem pairFree_cons (first : Nat) (rest : Str) (free : PairFree rest)
    (apart : ∀ second tail, rest = second::tail → ¬ (isHigh first = true ∧ isLow second = true)) :
    PairFree (first::rest) := by
  cases rest with
  | nil => trivial
  | cons second tail => exact ⟨apart second tail rfl,free⟩

/-- Joining leaves no pair, so a second reading changes nothing. -/
theorem joinSurrogates_pairFree (text : Str) : PairFree (joinSurrogates text) := by
  induction text using joinSurrogates.induct with
  | case1 => trivial
  | case2 code => trivial
  | case3 first second rest paired ih =>
    rw [joinSurrogates,if_pos paired]
    refine pairFree_cons _ _ ih ?_
    intro next tail _ ⟨high,_⟩
    rw [(joinPair_unpaired first second).1] at high
    contradiction
  | case4 first second rest unpaired ih =>
    rw [joinSurrogates,if_neg unpaired]
    refine pairFree_cons _ _ ih ?_
    rintro next tail same ⟨high,low⟩
    obtain ⟨head,more,shape,origin⟩ := joinSurrogates_head second rest
    obtain rfl : head = next := by rw [shape] at same; exact (List.cons.inj same).1
    rcases origin with rfl | notLow
    · simp [high,low] at unpaired
    · rw [notLow] at low
      contradiction

theorem joinSurrogates_eq_iff (text : Str) : joinSurrogates text = text ↔ PairFree text := by
  constructor
  · intro same
    rw [← same]
    exact joinSurrogates_pairFree text
  · exact joinSurrogates_of_pairFree text

end QuilrMcp.Library.Text
