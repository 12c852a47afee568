import QuilrMcp.Guardrail.Passes

/-! What the card expression matches: twelve to eighteen digits with at most one separator after
each, and a last digit, between places that hold no digit. The ends of the matches at a place come
longest first. -/
namespace QuilrMcp.Guardrail.CardShape
open Library.Text
open Library.Search
open Library.Unicode (Classes isAsciiDigit)
open Patterns

inductive Groups (isDigit isSeparator : Nat → Bool) : Nat → Nat → Nat → Prop
  | none (i : Nat) : Groups isDigit isSeparator 0 i i
  | bare {count i e : Nat} : isDigit i = true → Groups isDigit isSeparator count (i + 1) e →
      Groups isDigit isSeparator (count + 1) i e
  | spaced {count i e : Nat} : isDigit i = true → isSeparator (i + 1) = true →
      Groups isDigit isSeparator count (i + 2) e →
      Groups isDigit isSeparator (count + 1) i e

/-- Where one group that begins at a place can end. -/
def groupEnds (isDigit isSeparator : Nat → Bool) (i : Nat) : List Nat :=
  if isDigit i then if isSeparator (i + 1) then [i + 2,i + 1] else [i + 1] else []

variable {isDigit isSeparator : Nat → Bool}

theorem groups_le {count i e : Nat} (groups : Groups isDigit isSeparator count i e) :
    i + count ≤ e := by
  induction groups with
  | none i => exact Nat.le_refl _
  | bare _ _ ih => omega
  | spaced _ _ _ ih => omega

private theorem groups_succ {count i e : Nat} : Groups isDigit isSeparator (count + 1) i e ↔
    ∃ middle ∈ groupEnds isDigit isSeparator i, Groups isDigit isSeparator count middle e := by
  constructor
  · intro groups
    cases groups with
    | bare digit rest =>
      refine ⟨i + 1,?_,rest⟩
      rw [groupEnds,if_pos digit]
      split_ifs <;> simp
    | spaced digit separator rest =>
      refine ⟨i + 2,?_,rest⟩
      rw [groupEnds,if_pos digit,if_pos separator]
      exact List.mem_cons_self
  · rintro ⟨middle,member,rest⟩
    rw [groupEnds] at member
    split_ifs at member with digit separator
    · simp only [List.mem_cons,List.not_mem_nil,or_false] at member
      rcases member with rfl | rfl
      · exact .spaced digit separator rest
      · exact .bare digit rest
    · rw [List.mem_singleton] at member
      exact .bare digit (member ▸ rest)
    · cases member

private theorem mem_atMost_iff {extra i e : Nat} :
    e ∈ atMost (groupEnds isDigit isSeparator) extra i ↔
    ∃ count ≤ extra, Groups isDigit isSeparator count i e := by
  induction extra generalizing i with
  | zero =>
    rw [atMost,List.mem_singleton]
    constructor
    · rintro rfl
      exact ⟨0,Nat.le_refl _,.none _⟩
    · rintro ⟨count,low,groups⟩
      obtain rfl := Nat.le_zero.mp low
      cases groups
      rfl
  | succ extra ih =>
    rw [atMost,List.mem_append,List.mem_flatMap,List.mem_singleton]
    constructor
    · rintro (⟨middle,first,later⟩ | rfl)
      · obtain ⟨count,low,groups⟩ := ih.mp later
        exact ⟨count + 1,by omega,groups_succ.mpr ⟨middle,first,groups⟩⟩
      · exact ⟨0,Nat.zero_le _,.none _⟩
    · rintro ⟨count,low,groups⟩
      cases count with
      | zero =>
        cases groups
        exact Or.inr rfl
      | succ count =>
        obtain ⟨middle,first,later⟩ := groups_succ.mp groups
        exact Or.inl ⟨middle,first,ih.mpr ⟨count,by omega,later⟩⟩

private theorem mem_copies_iff {extra least i e : Nat} :
    e ∈ copies (groupEnds isDigit isSeparator) extra least i ↔
    ∃ count, least ≤ count ∧ count ≤ least + extra ∧ Groups isDigit isSeparator count i e := by
  induction least generalizing i with
  | zero =>
    rw [copies,mem_atMost_iff]
    simp only [Nat.zero_le,true_and,Nat.zero_add]
  | succ least ih =>
    rw [copies,List.mem_flatMap]
    constructor
    · rintro ⟨middle,first,later⟩
      obtain ⟨count,low,high,groups⟩ := ih.mp later
      exact ⟨count + 1,by omega,by omega,groups_succ.mpr ⟨middle,first,groups⟩⟩
    · rintro ⟨count,low,high,groups⟩
      obtain ⟨count,rfl⟩ : ∃ less, count = less + 1 := ⟨count - 1,by omega⟩
      obtain ⟨middle,first,later⟩ := groups_succ.mp groups
      exact ⟨middle,first,ih.mpr ⟨count,by omega,by omega,later⟩⟩

private theorem atMost_stuck {extra i : Nat} (stuck : isDigit i = false) :
    atMost (groupEnds isDigit isSeparator) extra i = [i] := by
  cases extra with
  | zero => rfl
  | succ extra => rw [atMost,groupEnds,stuck]; rfl

private theorem atMost_sorted (apart : ∀ i, isSeparator i = true → isDigit i = false)
    (extra i : Nat) :
    (atMost (groupEnds isDigit isSeparator) extra i).Pairwise (· > ·) := by
  induction extra generalizing i with
  | zero => exact List.pairwise_singleton _ _
  | succ extra ih =>
    have above (j : Nat) : ∀ e ∈ atMost (groupEnds isDigit isSeparator) extra j, j ≤ e := by
      intro e member
      obtain ⟨count,_,groups⟩ := mem_atMost_iff.mp member
      have := groups_le groups
      omega
    rw [atMost,groupEnds]
    split_ifs with digit separator
    · simp only [List.flatMap_cons,List.flatMap_nil,List.append_nil,
        atMost_stuck (apart _ separator)]
      simp only [List.pairwise_append,List.mem_append,List.mem_singleton,List.pairwise_singleton]
      refine ⟨⟨ih (i + 2),trivial,?_⟩,trivial,?_⟩
      · rintro a member b rfl
        have := above (i + 2) a member
        omega
      · rintro a (member | rfl) b rfl
        · have := above _ a member
          omega
        · omega
    · simp only [List.flatMap_cons,List.flatMap_nil,List.append_nil]
      simp only [List.pairwise_append,List.mem_singleton,List.pairwise_singleton]
      refine ⟨ih (i + 1),trivial,?_⟩
      rintro a member b rfl
      have := above _ a member
      omega
    · exact List.pairwise_singleton _ _

private theorem copies_sorted (apart : ∀ i, isSeparator i = true → isDigit i = false)
    (extra least i : Nat) :
    (copies (groupEnds isDigit isSeparator) extra least i).Pairwise (· > ·) := by
  induction least generalizing i with
  | zero => exact atMost_sorted apart extra i
  | succ least ih =>
    rw [copies,groupEnds]
    split_ifs with digit separator
    · simp only [List.flatMap_cons,List.flatMap_nil,List.append_nil]
      rw [List.pairwise_append]
      refine ⟨ih (i + 2),ih (i + 1),fun a longer b shorter => ?_⟩
      obtain ⟨count,_,_,groups⟩ := mem_copies_iff.mp longer
      have := groups_le groups
      -- after the separator no group begins, so the shorter way has used up its groups
      obtain ⟨count',_,_,groups'⟩ := mem_copies_iff.mp shorter
      cases groups' with
      | none => omega
      | bare digit' _ => rw [apart _ separator] at digit'; contradiction
      | spaced digit' _ _ => rw [apart _ separator] at digit'; contradiction
    · simp only [List.flatMap_cons,List.flatMap_nil,List.append_nil]
      exact ih (i + 1)
    · exact .nil

private theorem flatMap_sorted (next : Nat → List Nat)
    (single : ∀ i, next i = [] ∨ next i = [i + 1]) (places : List Nat)
    (sorted : places.Pairwise (· > ·)) : (places.flatMap next).Pairwise (· > ·) := by
  induction places with
  | nil => exact .nil
  | cons place places ih =>
    obtain ⟨above,rest⟩ := List.pairwise_cons.mp sorted
    rw [List.flatMap_cons]
    rcases single place with none_ | one
    · rw [none_,List.nil_append]
      exact ih rest
    · rw [one,List.singleton_append,List.pairwise_cons]
      refine ⟨fun e member => ?_,ih rest⟩
      obtain ⟨other,later,found⟩ := List.mem_flatMap.mp member
      have := above other later
      rcases single other with none_ | one
      · rw [none_] at found
        cases found
      · rw [one,List.mem_singleton] at found
        omega

section Expression
variable (classes : Classes)

def digitAt (text : Str) (i : Nat) : Bool := text[i]?.any classes.isDecimal

def separatorAt (text : Str) (i : Nat) : Bool := text[i]?.any ((lit " -").contains ·)

/-- From one place to the other stand thirteen to nineteen digits, with at most one separator between two. -/
def Number (text : Str) (i e : Nat) : Prop :=
  ∃ count m, 12 ≤ count ∧ count ≤ 18 ∧ Groups (digitAt classes text) (separatorAt text) count i m ∧
    digitAt classes text m = true ∧ e = m + 1

private theorem separators : lit " -" = [32,45] := by decide

theorem separator_not_digit (code : Nat) (separator : (lit " -").contains code = true) :
    classes.isDecimal code = false := by
  rw [separators] at separator
  simp only [List.contains_cons,List.contains_nil,Bool.or_false,Bool.or_eq_true,
    beq_iff_eq] at separator
  rcases separator with rfl | rfl
  · exact classes.isDecimal_ascii 32 (by omega)
  · exact classes.isDecimal_ascii 45 (by omega)

theorem separatorAt_not_digitAt (text : Str) (i : Nat) (separator : separatorAt text i = true) :
    digitAt classes text i = false := by
  rw [separatorAt] at separator
  rw [digitAt]
  cases found : text[i]? with
  | none => rfl
  | some code =>
    rw [found] at separator
    exact separator_not_digit classes code separator

private theorem ends_digit (text : Str) (i : Nat) :
    ends (digit classes) text i = if digitAt classes text i then [i + 1] else [] := rfl

private theorem ends_maybe (text : Str) (i : Nat) :
    ends (maybe (oneOf " -")) text i = if separatorAt text i then [i + 1,i] else [i] := by
  have shape : ends (maybe (oneOf " -")) text i =
    (if separatorAt text i then [i + 1] else []).flatMap (fun e => [e]) ++ [i] := rfl
  rw [shape]
  split_ifs <;> rfl

private theorem ends_group (text : Str) : ends (.seq (digit classes) (maybe (oneOf " -"))) text =
    groupEnds (digitAt classes text) (separatorAt text) := by
  funext i
  rw [ends,ends_digit,groupEnds]
  by_cases decimal : digitAt classes text i = true
  · rw [if_pos decimal,if_pos decimal,List.flatMap_singleton,ends_maybe]
  · rw [if_neg decimal,if_neg decimal,List.flatMap_nil]

private def lastEnds (text : Str) (m : Nat) : List Nat :=
  if digitAt classes text m && !digitAt classes text (m + 1) then [m + 1] else []

private theorem ends_card (text : Str) (i : Nat) : ends (creditCardExpression classes) text i =
    if 0 < i ∧ digitAt classes text (i - 1) = true then []
    else (copies (groupEnds (digitAt classes text) (separatorAt text)) 6 12 i).flatMap
      (lastEnds classes text) := by
  have shape : creditCardExpression classes = .seq (.notBehind classes.isDecimal)
    (.seq (.rep (.seq (digit classes) (maybe (oneOf " -"))) 12 6)
      (.seq (digit classes) (.notAhead (digit classes)))) := rfl
  have last : ends (.seq (digit classes) (.notAhead (digit classes))) text =
    lastEnds classes text := by
    funext m
    rw [ends,ends_digit,lastEnds]
    by_cases decimal : digitAt classes text m = true
    · rw [if_pos decimal,List.flatMap_singleton,ends,ends_digit,decimal]
      cases digitAt classes text (m + 1) <;> rfl
    · rw [if_neg decimal,List.flatMap_nil,if_neg]
      simp [decimal]
  have behind_ : ends (.notBehind classes.isDecimal) text i =
    if 0 < i ∧ digitAt classes text (i - 1) = true then [] else [i] := rfl
  rw [shape,ends,behind_]
  by_cases behind : 0 < i ∧ digitAt classes text (i - 1) = true
  · rw [if_pos behind,if_pos behind]
    rfl
  · rw [if_neg behind,if_neg behind,List.flatMap_singleton,ends,ends,ends_group,last]

/-- A match of the expression is a number between places that hold no digit. -/
theorem mem_card_iff {text : Str} {i e : Nat} : e ∈ ends (creditCardExpression classes) text i ↔
    (0 < i → digitAt classes text (i - 1) = false) ∧ Number classes text i e ∧
    digitAt classes text e = false := by
  rw [ends_card]
  constructor
  · intro member
    split_ifs at member with behind
    · cases member
    · obtain ⟨m,inside,last⟩ := List.mem_flatMap.mp member
      obtain ⟨count,low,high,groups⟩ := mem_copies_iff.mp inside
      rw [lastEnds] at last
      split_ifs at last with here
      · rw [List.mem_singleton] at last
        rw [Bool.and_eq_true,Bool.not_eq_true'] at here
        refine ⟨fun positive => ?_,⟨count,m,low,high,groups,here.1,last⟩,last ▸ here.2⟩
        rw [not_and,Bool.not_eq_true] at behind
        exact behind positive
      · cases last
  · rintro ⟨before,⟨count,m,low,high,groups,decimal,rfl⟩,after⟩
    rw [if_neg (fun behind => by rw [before behind.1] at behind; exact Bool.false_ne_true behind.2),
      List.mem_flatMap]
    refine ⟨m,mem_copies_iff.mpr ⟨count,low,high,groups⟩,?_⟩
    rw [lastEnds,decimal,after]
    exact List.mem_cons_self

private theorem card_sorted (text : Str) (i : Nat) :
    (ends (creditCardExpression classes) text i).Pairwise (· > ·) := by
  rw [ends_card]
  split_ifs
  · exact .nil
  · refine flatMap_sorted _ (fun m => ?_) _
      (copies_sorted (separatorAt_not_digitAt classes text) 6 12 i)
    rw [lastEnds]
    split_ifs
    · exact Or.inr rfl
    · exact Or.inl rfl

theorem card_greedy {text : Str} {i e : Nat}
    (member : e ∈ ends (creditCardExpression classes) text i) :
    ∃ first, (ends (creditCardExpression classes) text i).head? = some first ∧ e ≤ first := by
  obtain ⟨first,rest,shape⟩ := List.exists_cons_of_ne_nil (List.ne_nil_of_mem member)
  have sorted := card_sorted classes text i
  rw [shape] at member sorted ⊢
  refine ⟨first,rfl,?_⟩
  rcases List.mem_cons.mp member with rfl | later
  · exact Nat.le_refl _
  · exact Nat.le_of_lt ((List.pairwise_cons.mp sorted).1 e later)

theorem number_length {text : Str} {i e : Nat} (number : Number classes text i e) : i + 13 ≤ e := by
  obtain ⟨count,m,low,_,groups,_,rfl⟩ := number
  have := groups_le groups
  omega

private theorem groups_shift {D S D' S' : Nat → Bool} {i j : Nat} {count x y : Nat}
    (groups : Groups D S count x y) :
    ∀ a b, x = i + a → y = i + b → (∀ k, k < b → D' (j + k) = D (i + k) ∧ S' (j + k) = S (i + k)) →
      Groups D' S' count (j + a) (j + b) := by
  induction groups with
  | none x =>
    intro a b first last _
    obtain rfl : a = b := by omega
    exact .none _
  | @bare count x y digit rest ih =>
    rintro a b rfl rfl same
    have long := groups_le rest
    refine .bare ((same a (by omega)).1.trans digit) ?_
    exact ih (a + 1) b (by omega) rfl same
  | @spaced count x y digit separator rest ih =>
    rintro a b rfl rfl same
    have long := groups_le rest
    have next := same (a + 1) (by omega)
    refine .spaced ((same a (by omega)).1.trans digit) ?_ (ih (a + 2) b (by omega) rfl same)
    exact next.2.trans separator

theorem number_shift {text text' : Str} {i j size : Nat}
    (same : ∀ k < size, text'[j + k]? = text[i + k]?) (number : Number classes text i (i + size)) :
    Number classes text' j (j + size) := by
  obtain ⟨count,m,low,high,groups,decimal,ending⟩ := number
  have long := groups_le groups
  obtain ⟨b,rfl⟩ : ∃ b, m = i + b := ⟨m - i,by omega⟩
  refine ⟨count,j + b,low,high,?_,?_,by omega⟩
  · refine groups_shift (i := i) groups 0 b rfl rfl (fun k short => ?_)
    rw [digitAt,digitAt,separatorAt,separatorAt,same k (by omega)]
    exact ⟨rfl,rfl⟩
  · rw [digitAt,same b (by omega)]
    exact decimal

private theorem digitAt_some {text : Str} {i : Nat} (decimal : digitAt classes text i = true) :
    ∃ code, text[i]? = some code ∧ classes.isDecimal code = true := by
  rw [digitAt] at decimal
  cases found : text[i]? with
  | none => rw [found] at decimal; contradiction
  | some code => exact ⟨code,rfl,by rw [found] at decimal; exact decimal⟩

private theorem separatorAt_some {text : Str} {i : Nat} (separator : separatorAt text i = true) :
    ∃ code, text[i]? = some code ∧ (lit " -").contains code = true := by
  rw [separatorAt] at separator
  cases found : text[i]? with
  | none => rw [found] at separator; contradiction
  | some code => exact ⟨code,rfl,by rw [found] at separator; exact separator⟩

private theorem groups_count {text : Str} {count i m : Nat}
    (groups : Groups (digitAt classes text) (separatorAt text) count i m)
    (inside : m ≤ text.length) :
    (slice text i m).countP classes.isDecimal = count := by
  induction groups with
  | none i => simp [slice]
  | @bare count i m decimal rest ih =>
    have long := groups_le rest
    obtain ⟨code,found,isDecimal⟩ := digitAt_some classes decimal
    rw [slice_append (Nat.le_succ i) (by omega : i + 1 ≤ m) inside,List.countP_append,ih inside,
      slice_one found,List.countP_singleton,if_pos isDecimal,Nat.add_comm]
  | @spaced count i m decimal separator rest ih =>
    have long := groups_le rest
    obtain ⟨code,found,isDecimal⟩ := digitAt_some classes decimal
    obtain ⟨code',found',isSeparator⟩ := separatorAt_some separator
    rw [slice_append (by omega : i ≤ i + 2) (by omega : i + 2 ≤ m) inside,
      List.countP_append,ih inside,
      slice_append (Nat.le_succ i) (by omega : i + 1 ≤ i + 2) (by omega : i + 2 ≤ text.length),
      List.countP_append,
      slice_one found,slice_one found',List.countP_singleton,List.countP_singleton,if_pos isDecimal,
      if_neg (by rw [separator_not_digit classes code' isSeparator]; exact Bool.false_ne_true)]
    omega

theorem number_count {text : Str} {i e : Nat} (number : Number classes text i e)
    (inside : e ≤ text.length) :
    13 ≤ (slice text i e).countP classes.isDecimal ∧
    (slice text i e).countP classes.isDecimal ≤ 19 := by
  obtain ⟨count,m,low,high,groups,decimal,rfl⟩ := number
  have long := groups_le groups
  obtain ⟨code,found,isDecimal⟩ := digitAt_some classes decimal
  rw [slice_append (by omega : i ≤ m) (Nat.le_succ m) inside,List.countP_append,
    groups_count classes groups (by omega),slice_one found,List.countP_singleton,if_pos isDecimal]
  omega

theorem number_inside {text : Str} {i e : Nat} (number : Number classes text i e) :
    e ≤ text.length := by
  obtain ⟨_,m,_,_,_,decimal,rfl⟩ := number
  obtain ⟨_,found,_⟩ := digitAt_some classes decimal
  exact (List.getElem?_eq_some_iff.mp found).1

private theorem groups_push {D S : Nat → Bool} {count i m : Nat} (groups : Groups D S count i m)
    (digit : D m = true) :
    Groups D S (count + 1) i (m + 1) := by
  induction groups with
  | none i => exact .bare digit (.none _)
  | bare here _ ih => exact .bare here (ih digit)
  | spaced here separator _ ih => exact .spaced here separator (ih digit)

/-- A number that a digit follows has room for it when a longer number begins at the same place. -/
theorem number_next {text : Str} {i e stop : Nat} (number : Number classes text i e)
    (longer : Number classes text i stop) (before : e < stop)
    (decimal : digitAt classes text e = true) : Number classes text i (e + 1) := by
  have inside := number_inside classes longer
  have most := (number_count classes longer inside).2
  obtain ⟨count,m,low,_,groups,last,rfl⟩ := number
  have long := groups_le groups
  have pushed := groups_push (groups_push groups last) decimal
  rw [slice_append (by omega : i ≤ m + 1 + 1) (by omega) inside,List.countP_append,
    groups_count classes pushed (by omega)] at most
  exact ⟨count + 1,m + 1,by omega,by omega,groups_push groups last,decimal,rfl⟩

theorem digitAt_take (text : Str) (limit k : Nat) :
    digitAt classes (text.take limit) k = (decide (k < limit) && digitAt classes text k) := by
  rw [digitAt,digitAt,List.getElem?_take]
  by_cases within : k < limit
  · rw [if_pos within,decide_eq_true within,Bool.true_and]
  · rw [if_neg within,decide_eq_false within,Bool.false_and]
    rfl

theorem number_take {text : Str} {limit i e : Nat} :
    Number classes (text.take limit) i e ↔ Number classes text i e ∧ e ≤ limit := by
  constructor
  · intro number
    have inside := number_inside classes number
    have long := number_length classes number
    rw [List.length_take] at inside
    obtain ⟨size,rfl⟩ : ∃ size, e = i + size := ⟨e - i,by omega⟩
    refine ⟨number_shift classes (fun k short => ?_) number,by omega⟩
    rw [List.getElem?_take,if_pos (by omega)]
  · rintro ⟨number,within⟩
    have long := number_length classes number
    obtain ⟨size,rfl⟩ : ∃ size, e = i + size := ⟨e - i,by omega⟩
    refine number_shift classes (fun k short => ?_) number
    rw [List.getElem?_take,if_pos (by omega)]

/-- Below the end of a number, a number within the limit is within the first match there. -/
theorem card_within {text : Str} {i e limit stop : Nat}
    (before : 0 < i → digitAt classes text (i - 1) = false) (whole : Number classes text i stop)
    (below : limit ≤ stop) (number : Number classes text i e) (within : e ≤ limit) :
    ∃ e' ∈ ends (creditCardExpression classes) (text.take limit) i, e ≤ e' := by
  have behind : 0 < i → digitAt classes (text.take limit) (i - 1) = false := by
    intro positive
    rw [digitAt_take,before positive,Bool.and_false]
  by_cases next : e < limit ∧ digitAt classes text e = true
  · have longer := number_next classes number whole (by omega) next.2
    obtain ⟨e',member,above⟩ := card_within before whole below longer next.1
    exact ⟨e',member,by omega⟩
  · refine ⟨e,(mem_card_iff classes).mpr ⟨behind,(number_take classes).mpr ⟨number,within⟩,?_⟩,
      Nat.le_refl _⟩
    rw [digitAt_take,Bool.and_eq_false_iff,decide_eq_false_iff_not]
    rw [not_and_or,Bool.not_eq_true] at next
    exact next
termination_by limit - e

private theorem groups_covered {text : Str} {count i m : Nat}
    (groups : Groups (digitAt classes text) (separatorAt text) count i m) :
    ∀ k, i ≤ k → k < m → digitAt classes text k = true ∨ separatorAt text k = true := by
  induction groups with
  | none i =>
    intro k low high
    omega
  | bare decimal _ ih =>
    intro k low high
    rcases Nat.eq_or_lt_of_le low with rfl | after
    · exact Or.inl decimal
    · exact ih k after high
  | @spaced _ i _ decimal separator _ ih =>
    intro k low high
    by_cases first : k = i
    · exact Or.inl (first ▸ decimal)
    · by_cases second : k = i + 1
      · exact Or.inr (second ▸ separator)
      · exact ih k (by omega) high

theorem number_covered {text : Str} {i e : Nat} (number : Number classes text i e) :
    Covered (fun code => classes.isDecimal code = true ∨
      (lit " -").contains code = true) text i e := by
  obtain ⟨count,m,_,_,groups,decimal,rfl⟩ := number
  intro k low high
  have here : digitAt classes text k = true ∨ separatorAt text k = true := by
    by_cases last : k = m
    · exact Or.inl (last ▸ decimal)
    · exact groups_covered classes groups k low (by omega)
  rcases here with digit | separator
  · obtain ⟨code,found,isDecimal⟩ := digitAt_some classes digit
    exact ⟨code,found,Or.inl isDecimal⟩
  · obtain ⟨code,found,isSeparator⟩ := separatorAt_some separator
    exact ⟨code,found,Or.inr isSeparator⟩

private theorem groups_snoc {D S : Nat → Bool} {count i e : Nat}
    (groups : Groups D S (count + 1) i e) :
    ∃ m, Groups D S count i m ∧ D m = true ∧ (e = m + 1 ∨ S (m + 1) = true ∧ e = m + 2) := by
  induction count generalizing i with
  | zero =>
    cases groups with
    | bare digit rest =>
      cases rest
      exact ⟨i,.none i,digit,Or.inl rfl⟩
    | spaced digit separator rest =>
      cases rest
      exact ⟨i,.none i,digit,Or.inr ⟨separator,rfl⟩⟩
  | succ count ih =>
    cases groups with
    | bare digit rest =>
      obtain ⟨m,before,last,ending⟩ := ih rest
      exact ⟨m,.bare digit before,last,ending⟩
    | spaced digit separator rest =>
      obtain ⟨m,before,last,ending⟩ := ih rest
      exact ⟨m,.spaced digit separator before,last,ending⟩

/-- Groups up to a limit: the limit falls between two groups or between a digit and its separator. -/
private theorem groups_cut {D S : Nat → Bool} {count i m : Nat}
    (groups : Groups D S count i m) (limit : Nat) (low : i ≤ limit) (high : limit ≤ m) :
    ∃ count' ≤ count, Groups D S count' i limit ∨
      ∃ last, Groups D S count' i last ∧ D last = true ∧ limit = last + 1 := by
  induction groups with
  | none i =>
    obtain rfl : limit = i := by omega
    exact ⟨0,Nat.le_refl _,Or.inl (.none _)⟩
  | @bare count i m digit rest ih =>
    rcases Nat.eq_or_lt_of_le low with rfl | after
    · exact ⟨0,Nat.zero_le _,Or.inl (.none _)⟩
    · obtain ⟨count',fewer,whole | ⟨last,before,here,ending⟩⟩ := ih after high
      · exact ⟨count' + 1,by omega,Or.inl (.bare digit whole)⟩
      · exact ⟨count' + 1,by omega,Or.inr ⟨last,.bare digit before,here,ending⟩⟩
  | @spaced count i m digit separator rest ih =>
    by_cases first : limit = i
    · exact ⟨0,Nat.zero_le _,Or.inl (first ▸ .none _)⟩
    · by_cases second : limit = i + 1
      · exact ⟨0,Nat.zero_le _,Or.inr ⟨i,.none i,digit,second⟩⟩
      · obtain ⟨count',fewer,whole | ⟨last,before,here,ending⟩⟩ := ih (by omega) high
        · exact ⟨count' + 1,by omega,Or.inl (.spaced digit separator whole)⟩
        · exact ⟨count' + 1,by omega,Or.inr ⟨last,.spaced digit separator before,here,ending⟩⟩

private theorem digitAt_end (text : Str) : digitAt classes text text.length = false := by
  rw [digitAt,List.getElem?_eq_none (Nat.le_refl _)]
  rfl

/-- The part of a number that lies before the end of the text is matched once it has thirteen digits. -/
theorem card_cut {text more : Str} {j e : Nat} (number : Number classes (text ++ more) j e)
    (inside : j ≤ text.length) (beyond : text.length < e)
    (behind : 0 < j → digitAt classes text (j - 1) = false)
    (enough : 13 ≤ (slice text j text.length).countP classes.isDecimal) :
    ends (creditCardExpression classes) text j ≠ [] := by
  obtain ⟨count,m,_,high,groups,_,rfl⟩ := number
  obtain ⟨count',fewer,cut⟩ := groups_cut groups text.length inside (by omega)
  have here {last : Nat} (low : last ≤ text.length)
      (groups : Groups (digitAt classes (text ++ more)) (separatorAt (text ++ more))
        count' j last) :
      Groups (digitAt classes text) (separatorAt text) count' j last := by
    have long := groups_le groups
    obtain ⟨b,rfl⟩ : ∃ b, last = j + b := ⟨last - j,by omega⟩
    refine groups_shift (i := j) groups 0 b rfl rfl (fun k short => ?_)
    rw [digitAt,digitAt,separatorAt,separatorAt,List.getElem?_append_left (by omega)]
    exact ⟨rfl,rfl⟩
  rcases cut with whole | ⟨last,before,decimal,ending⟩
  · have whole := here (Nat.le_refl _) whole
    rw [groups_count classes whole (Nat.le_refl _)] at enough
    obtain ⟨less,rfl⟩ : ∃ less, count' = less + 1 := ⟨count' - 1,by omega⟩
    obtain ⟨last,groups,decimal,ending⟩ := groups_snoc whole
    refine List.ne_nil_of_mem (a := last + 1) ((mem_card_iff classes).mpr ⟨behind,
      ⟨less,last,by omega,by omega,groups,decimal,rfl⟩,?_⟩)
    rcases ending with ending | ⟨separator,_⟩
    · rw [← ending]
      exact digitAt_end classes text
    · exact separatorAt_not_digitAt classes text _ separator
  · have before := here (by omega) before
    have decimal' : digitAt classes text last = true := by
      have same : (text ++ more)[last]? = text[last]? := List.getElem?_append_left (by omega)
      rw [digitAt,← same]
      exact decimal
    obtain ⟨code,found,isDecimal⟩ := digitAt_some classes decimal'
    have long := groups_le before
    rw [ending,slice_append (by omega : j ≤ last) (Nat.le_succ last) (by omega),List.countP_append,
      groups_count classes before (by omega),slice_one found,List.countP_singleton,
      if_pos isDecimal] at enough
    refine List.ne_nil_of_mem (a := last + 1) ((mem_card_iff classes).mpr ⟨behind,
      ⟨count',last,by omega,by omega,before,decimal',rfl⟩,?_⟩)
    rw [← ending]
    exact digitAt_end classes text

/-- Digits with at most one space or hyphen between two of them. -/
def grouped : Str → Bool
  | [] => false
  | [code] => classes.isDecimal code
  | code::next::rest =>
    classes.isDecimal code && (grouped (next::rest) || (lit " -").contains next && grouped rest)

/-- A text of thirteen to nineteen digits with at most one space or hyphen between two of them. -/
def CardNumber (text : Str) : Prop :=
  grouped classes text = true ∧ 13 ≤ text.countP classes.isDecimal ∧
  text.countP classes.isDecimal ≤ 19

instance (text : Str) : Decidable (CardNumber classes text) := by unfold CardNumber; infer_instance

private theorem grouped_groups (left text : Str) (shape : grouped classes text = true) :
    ∃ count m, text.countP classes.isDecimal = count + 1 ∧ left.length + text.length = m + 1 ∧
      Groups (digitAt classes (left ++ text)) (separatorAt (left ++ text)) count left.length m ∧
      digitAt classes (left ++ text) m = true := by
  induction text using grouped.induct generalizing left with
  | case1 => simp [grouped] at shape
  | case2 code =>
    rw [grouped] at shape
    refine ⟨0,left.length,?_,rfl,.none _,?_⟩
    · rw [List.countP_singleton,if_pos shape]
    · rw [digitAt,List.getElem?_append_right (Nat.le_refl _),Nat.sub_self]
      exact shape
  | case3 code next rest ihBare ihSpaced =>
    rw [grouped,Bool.and_eq_true,Bool.or_eq_true,Bool.and_eq_true] at shape
    obtain ⟨decimal,tail⟩ := shape
    have here : digitAt classes (left ++ code::next::rest) left.length = true := by
      rw [digitAt,List.getElem?_append_right (Nat.le_refl _),Nat.sub_self]
      exact decimal
    rcases tail with bare | ⟨separator,spaced⟩
    · obtain ⟨count,m,digits,ending,groups,last⟩ := ihBare (left ++ [code]) bare
      rw [List.append_assoc,List.singleton_append] at groups last
      rw [List.length_append,List.length_singleton] at groups ending
      refine ⟨count + 1,m,?_,?_,.bare here groups,last⟩
      · rw [List.countP_cons,if_pos decimal,digits]
      · rw [List.length_cons]
        omega
    · obtain ⟨count,m,digits,ending,groups,last⟩ := ihSpaced (left ++ [code,next]) spaced
      rw [List.append_assoc] at groups last
      rw [List.length_append] at groups ending
      have other := separator_not_digit classes next separator
      have between : separatorAt (left ++ code::next::rest) (left.length + 1) = true := by
        rw [separatorAt,List.getElem?_append_right (by omega : left.length ≤ left.length + 1),
          Nat.add_sub_cancel_left]
        exact separator
      refine ⟨count + 1,m,?_,?_,.spaced here between groups,last⟩
      · rw [List.countP_cons,List.countP_cons,if_pos decimal,digits,other]
        rfl
      · rw [List.length_cons,List.length_cons]
        simp only [List.length_cons,List.length_nil] at ending
        omega

theorem number_of_card {left card right : Str} (number : CardNumber classes card) :
    Number classes (left ++ (card ++ right)) left.length (left.length + card.length) := by
  obtain ⟨shape,low,high⟩ := number
  obtain ⟨count,m,digits,ending,groups,last⟩ := grouped_groups classes left card shape
  rw [ending]
  have long := groups_le groups
  have whole : Number classes (left ++ card) left.length (left.length + card.length) :=
    ⟨count,m,by omega,by omega,groups,last,ending⟩
  rw [← ending]
  refine number_shift classes (fun k short => ?_) whole
  rw [← List.append_assoc,List.getElem?_append_left (by rw [List.length_append]; omega)]

end Expression

end QuilrMcp.Guardrail.CardShape
