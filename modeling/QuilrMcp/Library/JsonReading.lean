import QuilrMcp.Library.JsonRoundTrip
import Mathlib.Tactic.Ring

/-! What the reader can give, so that the values it gave can be written and read again. -/
namespace QuilrMcp.Library.Json
open Text

def InRange (text : Str) : Prop := ∀ code ∈ text, code < 0x110000

theorem InRange.tail {code : Nat} {text : Str} (range : InRange (code::text)) : InRange text :=
  fun next member => range next (List.mem_cons_of_mem _ member)

theorem InRange.suffix {text rest : Str} (range : InRange text) (suffix : rest <:+ text) :
    InRange rest :=
  fun code member => range code (suffix.subset member)

theorem InRange.skipSpace {text : Str} (range : InRange text) : InRange (skipSpace text) :=
  range.suffix (List.dropWhile_suffix _)

private theorem Scans.inRange {text rest : Str} {units : List (Bool × Nat)}
    (scans : Scans text units rest) (range : InRange text) :
    (∀ unit ∈ units, unit.2 < 0x110000) ∧ InRange rest := by
  -- Every code point that is kept is one of the text or the value of an escape.
  induction scans with
  | closed => exact ⟨List.forall_mem_nil _,range.tail⟩
  | numbered _ hex _ ih =>
    have small := (hex4_small hex).2
    obtain ⟨all,left⟩ := ih range.tail.tail.tail.tail.tail.tail
    exact ⟨List.forall_mem_cons.mpr ⟨by dsimp only; omega,all⟩,left⟩
  | escaped _ simple _ ih =>
    have small := (simpleEscape_small simple).2
    obtain ⟨all,left⟩ := ih range.tail.tail
    exact ⟨List.forall_mem_cons.mpr ⟨by dsimp only; omega,all⟩,left⟩
  | plain _ _ _ _ ih =>
    obtain ⟨all,left⟩ := ih range.tail
    exact ⟨List.forall_mem_cons.mpr ⟨range _ List.mem_cons_self,all⟩,left⟩

private theorem joinUnits_range (units : List (Bool × Nat))
    (small : ∀ unit ∈ units, unit.2 < 0x110000) :
    InRange (joinUnits units) := by
  induction units using joinUnits.induct with
  | case1 => intro code member; cases member
  | case2 unit => simpa [joinUnits,InRange] using small
  | case3 first second rest paired ih =>
    rw [joinUnits,if_pos paired]
    have joined : joinPair first.2 second.2 < 0x110000 := by
      simp only [Bool.and_eq_true,isHigh,isLow,decide_eq_true_eq] at paired
      unfold joinPair
      omega
    intro code member
    rcases List.mem_cons.mp member with rfl | later
    · exact joined
    · exact ih (fun unit inside => small unit (by simp [inside])) code later
  | case4 first second rest unpaired ih =>
    rw [joinUnits,if_neg unpaired]
    intro code member
    rcases List.mem_cons.mp member with rfl | later
    · exact small first List.mem_cons_self
    · exact ih (fun unit inside => small unit (List.mem_cons_of_mem _ inside)) code later

theorem scanString_range {ε : Type} (text value rest : Str) (range : InRange text)
    (read : scanString (ε := ε) text = .ok (value,rest)) : InRange value ∧ InRange rest := by
  obtain ⟨units,scans,rfl⟩ := scanString_iff.mp read
  obtain ⟨small,left⟩ := scans.inRange range
  exact ⟨joinUnits_range units small,left⟩

private theorem scanFraction_self (text fraction rest more : Str)
    (scanned : scanFraction text = some (fraction,rest))
    (stops : ∀ code ∈ more.head?, isDigit code = false) :
    scanFraction (fraction ++ more) = some (fraction,more) := by
  obtain ⟨-,digits,shape,filled,run⟩ := scanFraction_iff.mp scanned
  exact scanFraction_iff.mpr ⟨rfl,digits,shape,filled,run.all,stops⟩

private theorem scanExponent_self (text exponent rest : Str)
    (scanned : scanExponent text = some (exponent,rest)) :
    scanExponent exponent = some (exponent,[]) := by
  obtain ⟨-,letter,sign,digits,shape,known,signed,filled,run⟩ := scanExponent_iff.mp scanned
  exact scanExponent_iff.mpr ⟨(List.append_nil _).symm,letter,sign,digits,shape,known,signed,filled,
    run.all,by simp⟩

private theorem scanInteger_self (text digits rest more : Str)
    (scanned : scanInteger text = some (digits,rest))
    (stops : ∀ code ∈ more.head?, isDigit code = false) :
    scanInteger (digits ++ more) = some (digits,more) ∧ (digits ++ more).head? ≠ some 45 := by
  have again : scanInteger (digits ++ more) = some (digits,more) := by
    apply scanInteger_iff.mpr
    obtain ⟨-,zero | ⟨filled,unpadded,run⟩⟩ := scanInteger_iff.mp scanned
    · exact ⟨rfl,Or.inl zero⟩
    · exact ⟨rfl,Or.inr ⟨filled,unpadded,run.all,stops⟩⟩
  exact ⟨again,scanInteger_unsigned again⟩

private theorem exponent_head (text exponent rest : Str)
    (scanned : scanExponent text = some (exponent,rest)) :
    ∀ code ∈ exponent.head?, code = 101 ∨ code = 69 := by
  obtain ⟨-,letter,sign,digits,rfl,known,-⟩ := scanExponent_iff.mp scanned
  simpa using known

private theorem fraction_head (text fraction rest : Str)
    (scanned : scanFraction text = some (fraction,rest)) :
    ∀ code ∈ fraction.head?, code = 46 := by
  obtain ⟨-,digits,rfl,-⟩ := scanFraction_iff.mp scanned
  simp

private theorem scanNumber_parts (negative : Bool) (digits fraction exponent : Str)
    (whole : scanInteger (digits ++ (fraction ++ exponent)) = some (digits,fraction ++ exponent))
    (unsigned : (digits ++ (fraction ++ exponent)).head? ≠ some 45)
    (middle : (scanFraction (fraction ++ exponent)).getD ([],fraction ++ exponent) =
      (fraction,exponent))
    (tail : (scanExponent exponent).getD ([],exponent) = (exponent,[])) :
    scanNumber (Numeral.text ⟨negative,digits,fraction,exponent⟩) =
      some (⟨negative,digits,fraction,exponent⟩,[]) := by
  cases negative with
  | true =>
    simp only [Numeral.text,if_true,List.nil_append,List.append_assoc,scanNumber,
      List.cons_append,List.head?_cons,List.tail_cons,beq_self_eq_true,whole,middle,tail]
  | false =>
    have plain : ((digits ++ (fraction ++ exponent)).head? == some 45) = false :=
      beq_eq_false_iff_ne.mpr unsigned
    simp only [Numeral.text,Bool.false_eq_true,if_false,List.nil_append,List.append_assoc,
      scanNumber,plain,whole,middle,tail]

/-- The text of a numeral is scanned as that numeral. -/
theorem scanNumber_self (text rest : Str) (numeral : Numeral)
    (scanned : scanNumber text = some (numeral,rest)) :
    scanNumber numeral.text = some (numeral,[]) := by
  simp only [scanNumber] at scanned
  split at scanned
  · contradiction
  · rename_i digits left integer
    cases scanned
    have exponent (text : Str) :
        (∀ code ∈ ((scanExponent text).getD ([],text)).1.head?, code = 101 ∨ code = 69) ∧
        (scanExponent ((scanExponent text).getD ([],text)).1).getD ([],
          ((scanExponent text).getD ([],text)).1) =
          (((scanExponent text).getD ([],text)).1,[]) := by
      cases scanned : scanExponent text with
      | none => exact ⟨by simp,rfl⟩
      | some pair =>
        exact ⟨exponent_head text _ _ scanned,by simp [scanExponent_self text _ _ scanned]⟩
    have fraction (text more : Str) (stops : ∀ code ∈ more.head?, code = 101 ∨ code = 69) :
        (∀ code ∈ (((scanFraction text).getD ([],text)).1 ++ more).head?, isDigit code = false) ∧
        (scanFraction (((scanFraction text).getD ([],text)).1 ++ more)).getD
          ([],((scanFraction text).getD ([],text)).1 ++ more) =
          (((scanFraction text).getD ([],text)).1,more) := by
      have apart : ∀ code ∈ more.head?, isDigit code = false := by
        intro code member
        rcases stops code member with rfl | rfl <;> rfl
      cases scanned : scanFraction text with
      | none =>
        refine ⟨by simpa using apart,?_⟩
        have unsplit : scanFraction more = none := by
          rcases more with _ | ⟨code,_ | ⟨second,more⟩⟩
          · rfl
          · rfl
          · have known := stops code (by simp)
            have other : code ≠ 46 := by omega
            simp [scanFraction,other]
        simp [unsplit]
      | some pair =>
        obtain ⟨fraction,left⟩ := pair
        refine ⟨?_,by simp [scanFraction_self text fraction left more scanned apart]⟩
        intro code member
        cases fraction with
        | nil => exact apart code (by simpa using member)
        | cons point fraction =>
          have known := fraction_head text _ left scanned point (by simp)
          simp only [Option.getD_some,List.cons_append,List.head?_cons,
            Option.mem_some_iff] at member
          rw [← member,known]
          rfl
    obtain ⟨letters,tail⟩ := exponent ((scanFraction left).getD ([],left)).2
    obtain ⟨points,middle⟩ := fraction left _ letters
    obtain ⟨whole,unsigned⟩ := scanInteger_self _ digits left _ integer points
    exact scanNumber_parts _ digits _ _ whole unsigned middle tail

private theorem ofDigits_lt (digits : Str) (all : ∀ code ∈ digits, isDigit code = true) :
    ofDigits digits < 10 ^ digits.length := by
  have fold (digits : Str) (all : ∀ code ∈ digits, isDigit code = true) (start : Nat) :
      digits.foldl (fun value digit => 10 * value + (digit - 48)) start < (start +
        1) * 10 ^ digits.length := by
    induction digits generalizing start with
    | nil => simp
    | cons digit digits ih =>
      have small := all digit List.mem_cons_self
      simp only [isDigit,Bool.and_eq_true,decide_eq_true_eq] at small
      have later := ih (fun code member => all code (List.mem_cons_of_mem _ member))
        (10 * start + (digit - 48))
      rw [List.foldl_cons,List.length_cons,Nat.pow_succ]
      calc
        _ < (10 * start + (digit - 48) + 1) * 10 ^ digits.length := later
        _ ≤ (10 * (start + 1)) * 10 ^ digits.length := Nat.mul_le_mul_right _ (by omega)
        _ = _ := by ring
  simpa [ofDigits] using fold digits all 0

private theorem natText_length (value limit : Nat) (positive : 0 < limit)
    (small : value < 10 ^ limit) :
    (natText value).length ≤ limit := by
  unfold natText
  split_ifs with zero
  · exact positive
  · simpa using (Nat.digits_length_le_iff (by omega) value).mpr small

private theorem scanInteger_digits (text digits rest : Str)
    (scanned : scanInteger text = some (digits,rest)) :
    (∀ code ∈ digits, isDigit code = true) ∧ 0 < digits.length := by
  obtain ⟨-,rfl | ⟨filled,-,run⟩⟩ := scanInteger_iff.mp scanned
  · exact ⟨by simp [isDigit],by simp⟩
  · exact ⟨run.all,List.length_pos_iff.mpr filled⟩

private theorem readNumber_sound {ε : Type} (format : FloatFormat) (text : Str)
    (value : Value) (rest : Str) (read : readNumber (ε := ε) format text = .ok (value,rest)) :
    Sound format value ∧ rest <:+ text := by
  simp only [readNumber] at read
  split at read
  · contradiction
  · rename_i numeral left scanned
    have suffix : left <:+ text := ⟨numeral.text,scanNumber_text text left numeral scanned⟩
    split_ifs at read with float long negative
    · cases read
      refine ⟨Or.inr ?_,suffix⟩
      have known :=
        format.settled numeral.text ⟨numeral,scanNumber_self text rest numeral scanned,float⟩
      simpa [or_assoc] using known
    all_goals
      cases read
      refine ⟨?_,suffix⟩
      have digits : (∀ code ∈ numeral.digits, isDigit code = true) ∧ 0 < numeral.digits.length := by
        simp only [scanNumber] at scanned
        split at scanned
        · contradiction
        · rename_i digits left integer
          cases scanned
          exact scanInteger_digits _ _ _ integer
      have bound := natText_length (ofDigits numeral.digits) numeral.digits.length digits.2
        (ofDigits_lt _ digits.1)
      simp only [Sound,Int.natAbs_neg,Int.natAbs_natCast]
      omega

/-- ASCII, and no zero. -/
def Printed (text : Str) : Prop := ∀ code ∈ text, 0 < code ∧ code < 128

private theorem Printed.append {first second : Str} (left : Printed first)
    (right : Printed second) :
    Printed (first ++ second) := by
  intro code member
  rcases List.mem_append.mp member with inside | inside
  · exact left code inside
  · exact right code inside

private theorem Printed.cons {code : Nat} {text : Str} (first : 0 < code ∧ code < 128)
    (rest : Printed text) : Printed (code::text) :=
  List.forall_mem_cons.mpr ⟨first,rest⟩

private theorem digits_printed (text : Str) (all : ∀ code ∈ text, isDigit code = true) :
    Printed text := by
  intro code member
  have digit := all code member
  simp only [isDigit,Bool.and_eq_true,decide_eq_true_eq] at digit
  omega

private theorem fraction_printed (text fraction rest : Str)
    (scanned : scanFraction text = some (fraction,rest)) :
    Printed fraction := by
  obtain ⟨-,digits,rfl,-,run⟩ := scanFraction_iff.mp scanned
  exact .cons (by decide) (digits_printed _ run.all)

private theorem exponent_printed (text exponent rest : Str)
    (scanned : scanExponent text = some (exponent,rest)) :
    Printed exponent := by
  obtain ⟨-,letter,sign,digits,rfl,known,signed,-,run⟩ := scanExponent_iff.mp scanned
  have sign_ : Printed sign := by
    rcases signed with rfl | rfl | rfl <;> simp [Printed]
  exact .cons (by omega) (sign_.append (digits_printed _ run.all))

private theorem optional_printed (scan : Str → Option (Str × Str)) (text : Str)
    (printed : ∀ taken rest, scan text = some (taken,rest) → Printed taken) :
    Printed ((scan text).getD ([],text)).1 := by
  cases scanned : scan text with
  | none => intro code member; cases member
  | some pair => exact printed pair.1 pair.2 scanned

/-- A scanned numeral is printed, and it is not empty. -/
theorem scanNumber_printed {text rest : Str} {numeral : Numeral}
    (scanned : scanNumber text = some (numeral,rest)) :
    Printed numeral.text ∧ numeral.text ≠ [] := by
  simp only [scanNumber] at scanned
  split at scanned
  · contradiction
  · rename_i digits left integer
    simp only [Option.some.injEq,Prod.mk.injEq] at scanned
    obtain ⟨rfl,-⟩ := scanned
    obtain ⟨all,filled⟩ := scanInteger_digits _ _ _ integer
    have sign : Printed (if text.head? == some 45 then [45] else []) := by
      split_ifs <;> intro code member <;> simp_all
    constructor
    · exact ((sign.append (digits_printed _ all)).append
        (optional_printed _ _ (fraction_printed _))).append
        (optional_printed _ _ (exponent_printed _))
    · intro empty
      simp only [Numeral.text,List.append_eq_nil_iff] at empty
      rw [empty.1.1.2] at filled
      contradiction

theorem floatText_printed (text : Str) (known : IsFloatText text) : Printed text := by
  obtain ⟨numeral,scanned,-⟩ := known
  have whole := scanNumber_text text [] numeral scanned
  rw [List.append_nil] at whole
  rw [← whole]
  exact (scanNumber_printed scanned).1

private theorem natText_printed (value : Nat) : Printed (natText value) := by
  unfold natText
  split_ifs
  · exact .cons (by decide) (by intro code member; cases member)
  · intro code member
    simp only [List.mem_map,List.mem_reverse] at member
    obtain ⟨digit,inside,rfl⟩ := member
    have := Nat.digits_lt_base (by decide : 1 < 10) inside
    omega

theorem intText_printed (value : Int) : Printed (intText value) := by
  rw [intText]
  refine Printed.append ?_ (natText_printed _)
  split_ifs <;> intro code member <;> simp_all

abbrev minus : Nat := 45

private theorem digits_minus (text : Str) (all : ∀ code ∈ text, isDigit code = true) :
    minus ∉ text := by
  intro member
  have digit := all minus member
  contradiction

private theorem fraction_minus (text fraction rest : Str)
    (scanned : scanFraction text = some (fraction,rest)) :
    minus ∉ fraction := by
  obtain ⟨-,digits,rfl,-,run⟩ := scanFraction_iff.mp scanned
  simpa using digits_minus _ run.all

private theorem exponent_minus (text exponent rest : Str)
    (scanned : scanExponent text = some (exponent,rest)) :
    ∃ letter power, exponent = letter::power ∧ (letter = 101 ∨ letter = 69) ∧
    power.count minus ≤ 1 := by
  obtain ⟨-,letter,sign,digits,rfl,known,signed,-,run⟩ := scanExponent_iff.mp scanned
  refine ⟨letter,_,rfl,known,?_⟩
  rw [List.count_append,List.count_eq_zero.mpr (digits_minus _ run.all)]
  rcases signed with rfl | rfl | rfl <;> decide

/-- A number is written with at most one minus, and a float with one more in its exponent. -/
theorem floatText_minus (text : Str) (known : IsFloatText text) :
    ∃ mantissa : Str, mantissa.count minus ≤ 1 ∧
    (text = mantissa ∨ ∃ letter power, text = mantissa ++ letter::power ∧
      (letter = 101 ∨ letter = 69) ∧ power.count minus ≤ 1) := by
  obtain ⟨numeral,scanned,-⟩ := known
  have whole := scanNumber_text text [] numeral scanned
  rw [List.append_nil] at whole
  rw [← whole]
  simp only [scanNumber] at scanned
  split at scanned
  · contradiction
  · rename_i codes left integer
    simp only [Option.some.injEq,Prod.mk.injEq] at scanned
    obtain ⟨rfl,-⟩ := scanned
    have sign : (if text.head? == some 45 then [45] else []).count minus ≤ 1 := by
      split_ifs <;> decide
    have digits := digits_minus _ (scanInteger_digits _ _ _ integer).1
    have fraction : minus ∉ ((scanFraction left).getD ([],left)).1 := by
      cases scanned : scanFraction left with
      | none => exact List.not_mem_nil
      | some pair => exact fraction_minus left pair.1 pair.2 scanned
    refine ⟨(if text.head? == some 45 then [45] else []) ++ codes ++
      ((scanFraction left).getD ([],left)).1,?_,?_⟩
    · rw [List.count_append,List.count_append,List.count_eq_zero.mpr digits,
        List.count_eq_zero.mpr fraction]
      exact sign
    · cases scanned : scanExponent ((scanFraction left).getD ([],left)).2 with
      | none => exact Or.inl (by simp [Numeral.text])
      | some pair =>
        obtain ⟨letter,power,shape,known,count⟩ := exponent_minus _ pair.1 pair.2 scanned
        exact Or.inr ⟨letter,power,by simp [Numeral.text,shape],known,count⟩

theorem intText_minus (value : Int) : (intText value).count minus ≤ 1 := by
  have digits : minus ∉ natText value.natAbs := by
    unfold natText
    split_ifs
    · decide
    · simp only [List.mem_map,not_exists,not_and]
      intro digit _ same
      have same : 48 + digit = 45 := same
      omega
  rw [intText,List.count_append,List.count_eq_zero.mpr digits]
  split_ifs <;> decide

private theorem hexCode_printed (value : Nat) (bound : value < 16) :
    0 < hexCode value ∧ hexCode value < 128 := by
  unfold hexCode
  split_ifs <;> omega

private theorem unicodeEscape_printed (code : Nat) : Printed (unicodeEscape code) := by
  have digit (value : Nat) := hexCode_printed (value % 16) (Nat.mod_lt _ (by decide))
  exact .cons (by decide)
    (.cons (by decide) (.cons (digit _) (.cons (digit _) (.cons (digit _) (.cons (digit _)
    (by intro code member; cases member))))))

private theorem escapeCode_printed (code : Nat) : Printed (escapeCode true code) := by
  by_cases named : Named code
  · obtain ⟨letter,known,-,written⟩ := escapeCode_named true named
    have small : 0 < letter ∧ letter < 128 :=
      (by decide : ∀ letter ∈ lit "\"\\bfnrt", 0 < letter ∧ letter < 128) letter known
    rw [written]
    exact .cons (by decide) (.cons small (List.forall_mem_nil _))
  · rw [escapeCode_unnamed true named]
    split_ifs with control ascii astral
    · exact unicodeEscape_printed code
    · exact (unicodeEscape_printed _).append (unicodeEscape_printed _)
    · exact unicodeEscape_printed code
    · have small : code < 127 := by simpa using ascii
      exact .cons (by omega) (List.forall_mem_nil _)

private theorem writeString_printed (style : Style) (ascii : style.ensureAscii = true)
    (text : Str) :
    Printed (writeString style text) := by
  rw [writeString,ascii]
  refine Printed.append (.cons (by decide) ?_)
    (.cons (by decide) (by intro code member; cases member))
  intro code member
  obtain ⟨origin,_,inside⟩ := List.mem_flatMap.mp member
  exact escapeCode_printed origin code inside

private theorem separators_printed (style : Style) :
    Printed style.itemSeparator ∧ Printed style.keySeparator := by
  unfold Style.itemSeparator Style.keySeparator
  split_ifs
  all_goals exact ⟨by intro code member; simp at member; omega,by intro code member; simp at member; omega⟩

section Reading
variable {ε : Type} (format : FloatFormat)
    (hook : List (Str × Value) → Except ε (List (Str × Value)))

mutual
/-- The hook takes the fields of every object in the value as they are. -/
def Settled : Value → Prop
  | .list items => SettledItems items
  | .dict fields => hook fields = .ok fields ∧ SettledFields fields
  | .null => True
  | .bool _ => True
  | .int _ => True
  | .float _ => True
  | .str _ => True
def SettledItems : List Value → Prop
  | [] => True
  | item::items => Settled item ∧ SettledItems items
def SettledFields : List (Str × Value) → Prop
  | [] => True
  | (_,value)::fields => Settled value ∧ SettledFields fields
end

/-- A hook that refuses or keeps the pairs it is given. -/
def Keeps : Prop := ∀ pairs fields, hook pairs = .ok fields → fields = pairs

private theorem constants_sound (constant : Str × Value) (member : constant ∈ constants) :
    Sound format constant.2 ∧ Settled hook constant.2 := by
  simp only [constants,List.mem_cons,List.not_mem_nil,or_false] at member
  rcases member with rfl | rfl | rfl | rfl | rfl | rfl <;> simp [Sound,Settled]

private theorem readScalar_sound (text : Str) (value : Value) (rest : Str)
    (read : readScalar (ε := ε) format text = .ok (value,rest)) :
    Sound format value ∧ Settled hook value ∧ rest <:+ text := by
  simp only [readScalar] at read
  split at read
  · rename_i name known found
    cases read
    have sound := constants_sound format hook _ (List.mem_of_find?_eq_some found)
    exact ⟨sound.1,sound.2,List.drop_suffix _ _⟩
  · obtain ⟨sound,suffix⟩ := readNumber_sound format text value rest read
    refine ⟨sound,?_,suffix⟩
    simp only [readNumber] at read
    split at read
    · contradiction
    · split_ifs at read <;> cases read <;> trivial

theorem readScalar_value (text : Str) (value : Value) (rest : Str)
    (read : readScalar (ε := ε) format text = .ok (value,rest)) : Sound format value :=
  (readScalar_sound format (fun pairs => (.ok pairs : Except ε (List (Str × Value)))) text
    value rest read).1

theorem readScalar_settled (text : Str) (value : Value) (rest : Str)
    (read : readScalar (ε := ε) format text = .ok (value,rest)) : Settled hook value :=
  (readScalar_sound format hook text value rest read).2.1

private theorem InRange.mark {text rest : Str} {code : Nat} (range : InRange text)
    (shape : Json.skipSpace text = code::rest) :
    InRange rest := by
  have trimmed := range.skipSpace
  rw [shape] at trimmed
  exact trimmed.tail

/-- What holds of every scalar that is read, and of what is built of values that it holds of. -/
structure Readable (good : Value → Prop) : Prop where
  scalar : ∀ text value rest, readScalar (ε := ε) format text = .ok (value,rest) → good value
  string : ∀ text, InRange text → good (.str text)
  list : ∀ items, (∀ item ∈ items, good item) → good (.list items)
  dict : ∀ members fields, hook members = .ok fields →
    (∀ member ∈ members, InRange member.1 ∧ good member.2) → good (.dict fields)

/-- It holds of everything the reader gives, which leaves a suffix in range. The induction is on the
fuel, over the three functions at once. -/
private theorem read_good {good : Value → Prop} (readable : Readable format hook good)
    (fuel : Nat) :
    (∀ text value rest, InRange text → readValue format hook fuel text = .ok (value,rest) →
      good value ∧ InRange rest) ∧
    (∀ text items rest, InRange text → readItems format hook fuel text = .ok (items,rest) →
      (∀ item ∈ items, good item) ∧ InRange rest) ∧
    (∀ text members rest, InRange text → readMembers format hook fuel text = .ok (members,rest) →
      (∀ member ∈ members, InRange member.1 ∧ good member.2) ∧ InRange rest) := by
  induction fuel with
  | zero => exact ⟨by simp [readValue],by simp [readItems],by simp [readMembers]⟩
  | succ fuel ih =>
    obtain ⟨onValue,onItems,onMembers⟩ := ih
    refine ⟨?_,?_,?_⟩
    · intro text value rest range read
      cases readValue_iff.mp read with
      | string scanned =>
        have known := scanString_range _ _ _ range.tail scanned
        exact ⟨readable.string _ known.1,known.2⟩
      | emptyList closed => exact ⟨readable.list [] (List.forall_mem_nil _),range.tail.mark closed⟩
      | list _ inner =>
        have known := onItems _ _ rest range.tail.skipSpace inner
        exact ⟨readable.list _ known.1,known.2⟩
      | emptyDict closed hooked =>
        exact ⟨readable.dict [] _ hooked (List.forall_mem_nil _),range.tail.mark closed⟩
      | dict _ inner hooked =>
        have known := onMembers _ _ rest range.tail.skipSpace inner
        exact ⟨readable.dict _ _ hooked known.1,known.2⟩
      | scalar _ _ _ scalar =>
        exact ⟨readable.scalar _ value rest scalar,
          range.suffix (readScalar_sound format hook _ value rest scalar).2.2⟩
    · intro text items rest range read
      cases readItems_iff.mp read with
      | last first closed =>
        obtain ⟨good,left⟩ := onValue _ _ _ range first
        exact ⟨List.forall_mem_singleton.mpr good,left.mark closed⟩
      | more first comma _ inner =>
        obtain ⟨good,left⟩ := onValue _ _ _ range first
        have known := onItems _ _ rest (left.mark comma).skipSpace inner
        exact ⟨List.forall_mem_cons.mpr ⟨good,known.1⟩,known.2⟩
    · intro text members rest range read
      cases readMembers_iff.mp read with
      | last scanned colon first closed =>
        obtain ⟨key,left⟩ := scanString_range _ _ _ range.tail scanned
        obtain ⟨good,left'⟩ := onValue _ _ _ (left.mark colon).skipSpace first
        exact ⟨List.forall_mem_singleton.mpr ⟨key,good⟩,left'.mark closed⟩
      | more scanned colon first comma _ inner =>
        obtain ⟨key,left⟩ := scanString_range _ _ _ range.tail scanned
        obtain ⟨good,left'⟩ := onValue _ _ _ (left.mark colon).skipSpace first
        have known := onMembers _ _ rest (left'.mark comma).skipSpace inner
        exact ⟨List.forall_mem_cons.mpr ⟨⟨key,good⟩,known.1⟩,known.2⟩

theorem loads_good {good : Value → Prop} (readable : Readable format hook good) (text : Str)
    (value : Value) (range : InRange text) (read : loads format hook text = .ok value) :
    good value := by
  simp only [loads,decode] at read
  split_ifs at read with marked
  split at read
  · contradiction
  · rename_i value' rest inner
    split_ifs at read with ended
    cases read
    exact ((read_good format hook readable _).1 _ value rest range.skipSpace inner).1

theorem soundItems_iff (items : List Value) :
    SoundItems format items ↔ ∀ item ∈ items, Sound format item := by
  induction items with
  | nil => simp [SoundItems]
  | cons item items ih => simp [SoundItems,ih]

theorem soundFields_iff (fields : List (Str × Value)) :
    SoundFields format fields ↔ ∀ field ∈ fields, InRange field.1 ∧ Sound format field.2 := by
  induction fields with
  | nil => simp [SoundFields]
  | cons field fields ih => simp [SoundFields,ih,InRange,and_assoc]

theorem settledItems_iff (items : List Value) :
    SettledItems hook items ↔ ∀ item ∈ items, Settled hook item := by
  induction items with
  | nil => simp [SettledItems]
  | cons item items ih => simp [SettledItems,ih]

theorem settledFields_iff (fields : List (Str × Value)) :
    SettledFields hook fields ↔ ∀ field ∈ fields, Settled hook field.2 := by
  induction fields with
  | nil => simp [SettledFields]
  | cons field fields ih => simp [SettledFields,ih]

theorem loads_sound (keeps : Keeps hook) (text : Str) (value : Value) (range : InRange text)
    (read : loads format hook text = .ok value) : Sound format value ∧ Settled hook value := by
  apply loads_good format hook _ text value range read
  constructor
  · intro text value rest read
    have known := readScalar_sound format hook text value rest read
    exact ⟨known.1,known.2.1⟩
  · exact fun text range => ⟨range,trivial⟩
  · intro items each
    exact ⟨(soundItems_iff format items).mpr (fun item member => (each item member).1),
      (settledItems_iff hook items).mpr (fun item member => (each item member).2)⟩
  · intro members fields hooked each
    obtain rfl := keeps members fields hooked
    exact ⟨(soundFields_iff format fields).mpr (fun field member =>
      ⟨(each field member).1,(each field member).2.1⟩),
      hooked,(settledFields_iff hook fields).mpr (fun field member => (each field member).2.2)⟩

mutual
theorem dumps_printed (style : Style) (ascii : style.ensureAscii = true) :
    (value : Value) → Sound format value →
    Printed (dumps style value)
  | .null, _ => (by decide : ∀ code ∈ lit "null", 0 < code ∧ code < 128)
  | .bool true, _ => (by decide : ∀ code ∈ lit "true", 0 < code ∧ code < 128)
  | .bool false, _ => (by decide : ∀ code ∈ lit "false", 0 < code ∧ code < 128)
  | .int value, _ => intText_printed value
  | .float text, sound => by
    rw [dumps]
    rcases sound with rfl | rfl | rfl | known
    · intro code member; revert code; decide
    · intro code member; revert code; decide
    · intro code member; revert code; decide
    · exact floatText_printed text known.1
  | .str value, _ => writeString_printed style ascii value
  | .list items, sound =>
    (Printed.cons (by decide) (dumpItems_printed style ascii items sound)).append
      (.cons (by decide) (by intro code member; cases member))
  | .dict fields, sound =>
    (Printed.cons (by decide) (dumpFields_printed style ascii fields sound)).append
      (.cons (by decide) (by intro code member; cases member))
theorem dumpItems_printed (style : Style) (ascii : style.ensureAscii = true) :
    (items : List Value) →
    SoundItems format items → Printed (dumpItems style items)
  | [], _ => by intro code member; cases member
  | [item], sound => dumps_printed style ascii item sound.1
  | item::next::items, sound =>
    ((dumps_printed style ascii item sound.1).append (separators_printed style).1).append
      (dumpItems_printed style ascii (next::items) sound.2)
theorem dumpFields_printed (style : Style) (ascii : style.ensureAscii = true) :
    (fields : List (Str × Value)) →
    SoundFields format fields → Printed (dumpFields style fields)
  | [], _ => by intro code member; cases member
  | [(key,value)], sound =>
    ((writeString_printed style ascii key).append (separators_printed style).2).append
      (dumps_printed style ascii value sound.2.1)
  | (key,value)::next::fields, sound =>
    ((((writeString_printed style ascii key).append (separators_printed style).2).append
      (dumps_printed style ascii value sound.2.1)).append (separators_printed style).1).append
      (dumpFields_printed style ascii (next::fields) sound.2.2)
end

mutual
/-- No string of the value, keys included, has a high surrogate directly before a low one. -/
def Unpaired : Value → Prop
  | .str value => PairFree value
  | .list items => UnpairedItems items
  | .dict fields => UnpairedFields fields
  | .null => True
  | .bool _ => True
  | .int _ => True
  | .float _ => True
def UnpairedItems : List Value → Prop
  | [] => True
  | item::items => Unpaired item ∧ UnpairedItems items
def UnpairedFields : List (Str × Value) → Prop
  | [] => True
  | (key,value)::fields => PairFree key ∧ Unpaired value ∧ UnpairedFields fields
end

mutual
def decidableUnpaired : (value : Value) → Decidable (Unpaired value)
  | .str value => inferInstanceAs (Decidable (PairFree value))
  | .list items => decidableUnpairedItems items
  | .dict fields => decidableUnpairedFields fields
  | .null => .isTrue trivial
  | .bool _ => .isTrue trivial
  | .int _ => .isTrue trivial
  | .float _ => .isTrue trivial
def decidableUnpairedItems : (items : List Value) → Decidable (UnpairedItems items)
  | [] => .isTrue trivial
  | item::items =>
    have := decidableUnpaired item
    have := decidableUnpairedItems items
    inferInstanceAs (Decidable (_ ∧ _))
def decidableUnpairedFields : (fields : List (Str × Value)) → Decidable (UnpairedFields fields)
  | [] => .isTrue trivial
  | (key,value)::fields =>
    have := decidableUnpaired value
    have := decidableUnpairedFields fields
    inferInstanceAs (Decidable (PairFree key ∧ _ ∧ _))
end

instance (fields : List (Str × Value)) : Decidable (UnpairedFields fields) :=
  decidableUnpairedFields fields

theorem unpairedItems_iff (items : List Value) :
    UnpairedItems items ↔ ∀ item ∈ items, Unpaired item := by
  induction items with
  | nil => simp [UnpairedItems]
  | cons item items ih => simp [UnpairedItems,ih]

private theorem map_ok {α β γ : Type} (result : Except α β) (f : β → γ) (value : γ)
    (mapped : result.map f = .ok value) : ∃ inner, result = .ok inner ∧ f inner = value := by
  cases result with
  | error error => simp [Except.map] at mapped
  | ok inner => exact ⟨inner,rfl,by simpa [Except.map] using mapped⟩

private theorem readBack_true (text : Str) : readBack true text = text ↔ PairFree text := by
  simp [readBack,joinSurrogates_eq_iff]

mutual
/-- Writing with escapes and reading again changes a settled value exactly when it holds a pair. -/
theorem rebuild_eq_iff (keeps : Keeps hook) : (value : Value) → Settled hook value →
    (rebuild hook true value = .ok value ↔ Unpaired value)
  | .null, _ => by simp [rebuild,Unpaired]
  | .bool _, _ => by simp [rebuild,Unpaired]
  | .int _, _ => by simp [rebuild,Unpaired]
  | .float _, _ => by simp [rebuild,Unpaired]
  | .str value, _ => by simp [rebuild,Unpaired,readBack_true]
  | .list items, settled => by
    rw [Unpaired,← rebuildItems_eq_iff keeps items settled,rebuild]
    constructor
    · intro same
      obtain ⟨inner,built,shape⟩ := map_ok _ _ _ same
      cases shape
      exact built
    · intro same
      rw [same]
      rfl
  | .dict fields, settled => by
    obtain ⟨hooked,settled⟩ := settled
    rw [Unpaired,← rebuildFields_eq_iff keeps fields settled,rebuild]
    constructor
    · intro same
      split at same
      · contradiction
      · rename_i built inner
        split at same
        · rename_i kept again
          cases same
          obtain rfl := keeps _ _ again
          exact inner
        · contradiction
    · intro same
      rw [same]
      simp [hooked]
theorem rebuildItems_eq_iff (keeps : Keeps hook) : (items : List Value) → SettledItems hook items →
    (rebuildItems hook true items = .ok items ↔ UnpairedItems items)
  | [], _ => by simp [rebuildItems,UnpairedItems]
  | item::items, settled => by
    rw [UnpairedItems,← rebuild_eq_iff keeps item settled.1,
      ← rebuildItems_eq_iff keeps items settled.2,rebuildItems]
    constructor
    · intro same
      split at same
      · contradiction
      · rename_i built first
        obtain ⟨inner,later,shape⟩ := map_ok _ _ _ same
        cases shape
        exact ⟨first,later⟩
    · rintro ⟨first,later⟩
      rw [first,later]
      rfl
theorem rebuildFields_eq_iff (keeps : Keeps hook) :
    (fields : List (Str × Value)) → SettledFields hook fields →
    (rebuildFields hook true fields = .ok fields ↔ UnpairedFields fields)
  | [], _ => by simp [rebuildFields,UnpairedFields]
  | (key,value)::fields, settled => by
    rw [UnpairedFields,← rebuild_eq_iff keeps value settled.1,
      ← rebuildFields_eq_iff keeps fields settled.2,← readBack_true,rebuildFields]
    constructor
    · intro same
      split at same
      · contradiction
      · rename_i built first
        obtain ⟨inner,later,shape⟩ := map_ok _ _ _ same
        simp only [List.cons.injEq,Prod.mk.injEq] at shape
        obtain ⟨⟨spelt,rfl⟩,rfl⟩ := shape
        exact ⟨spelt,first,later⟩
    · rintro ⟨spelt,first,later⟩
      rw [first,later]
      simp [Except.map,spelt]
end

mutual
/-- Without escapes a settled value is read back as it was written. -/
theorem rebuild_raw : (value : Value) → Settled hook value → rebuild hook false value = .ok value
  | .null, _ => rfl
  | .bool _, _ => rfl
  | .int _, _ => rfl
  | .float _, _ => rfl
  | .str _, _ => rfl
  | .list items, settled => by
    rw [rebuild,rebuildItems_raw items settled]
    rfl
  | .dict fields, settled => by
    rw [rebuild,rebuildFields_raw fields settled.2]
    simp [settled.1]
theorem rebuildItems_raw : (items : List Value) → SettledItems hook items →
    rebuildItems hook false items = .ok items
  | [], _ => rfl
  | item::items, settled => by
    rw [rebuildItems,rebuild_raw item settled.1,rebuildItems_raw items settled.2]
    rfl
theorem rebuildFields_raw : (fields : List (Str × Value)) → SettledFields hook fields →
    rebuildFields hook false fields = .ok fields
  | [], _ => rfl
  | (key,value)::fields, settled => by
    rw [rebuildFields,rebuild_raw value settled.1,rebuildFields_raw fields settled.2]
    rfl
end

end Reading

end QuilrMcp.Library.Json
