import QuilrMcp.Library.JsonSteps
import Mathlib.Data.Nat.Digits.Lemmas
import Mathlib.Tactic.IntervalCases

/-! Reading back what was written. A string written with escapes comes back with its
surrogate pairs joined; everything else comes back as it was, once the hook has seen
the pairs of every object again. -/
namespace QuilrMcp.Library.Json
open Text

/-- What a written string is read back as. -/
def readBack (ensureAscii : Bool) (text : Str) : Str :=
  if ensureAscii then joinSurrogates text else text

def codeUnits (ensureAscii : Bool) (code : Nat) : List (Bool × Nat) :=
  if code = quote ∨ code = backslash ∨ code = 10 ∨ code = 13 ∨ code = 9 ∨ code = 8 ∨ code = 12 then
    [(false,code)]
  else if code < 32 then [(true,code)]
  else if ensureAscii && 127 ≤ code then
    if 0x10000 ≤ code then
      [(true,0xD800 + (code - 0x10000) / 0x400 % 0x400),(true,0xDC00 + (code - 0x10000) % 0x400)]
    else [(true,code)]
  else [(false,code)]

private theorem hexDigit_hexCode (value : Nat) (bound : value < 16) :
    hexDigit (hexCode value) = some value := by
  interval_cases value <;> rfl

theorem hex4_hexCode (code : Nat) (bound : code < 0x10000) :
    hex4 (hexCode (code / 4096 % 16)) (hexCode (code / 256 % 16)) (hexCode (code / 16 % 16))
      (hexCode (code % 16)) = some code := by
  simp only [hex4,hexDigit_hexCode _ (Nat.mod_lt _ (by omega : 16 > 0)),Option.bind_eq_bind,
    Option.bind_some,Option.pure_def,Option.some.injEq]
  omega

private theorem scanUnits_quote {ε : Type} (rest : Str) :
    scanUnits (ε := ε) (quote::rest) = .ok ([],rest) := by
  rw [scanUnits.eq_def]
  simp

private theorem scanUnits_simple {ε : Type} (letter value : Nat) (rest : Str)
    (known : simpleEscape letter = some value) (other : letter ≠ 117) :
    scanUnits (ε := ε) (backslash::letter::rest) = consUnit (false,value) (scanUnits rest) := by
  rw [scanUnits.eq_def]
  simp [known,other]

private theorem scanUnits_unicodeEscape {ε : Type} (code : Nat)
    (bound : code < 0x10000) (rest : Str) (more : rest ≠ []) :
    scanUnits (ε := ε) (unicodeEscape code ++ rest) = consUnit (true,code) (scanUnits rest) := by
  have opened : rest.isEmpty = false := by cases rest <;> simp_all
  simp only [unicodeEscape,List.cons_append,List.nil_append]
  rw [scanUnits.eq_def]
  simp [hex4_hexCode code bound,opened]

private theorem scanUnits_plain {ε : Type} (code : Nat) (rest : Str) (unquoted : code ≠ quote)
    (unescaped : code ≠ backslash) (printable : ¬ code < 32) :
    scanUnits (ε := ε) (code::rest) = consUnit (false,code) (scanUnits rest) := by
  rw [scanUnits.eq_def]
  simp [unquoted,unescaped,printable]

private theorem scanUnits_escapeCode {ε : Type} (ensureAscii : Bool) (code : Nat)
    (bound : code < 0x110000) (rest : Str) (more : rest ≠ []) :
    scanUnits (ε := ε) (escapeCode ensureAscii code ++ rest) =
      (codeUnits ensureAscii code).foldr consUnit (scanUnits rest) := by
  by_cases named : Named code
  · obtain ⟨letter,known,simple,written⟩ := escapeCode_named ensureAscii named
    have other : letter ≠ 117 := by
      rintro rfl
      contradiction
    rw [codeUnits,if_pos named,written]
    exact scanUnits_simple letter code rest simple other
  · rw [codeUnits,if_neg named,escapeCode_unnamed ensureAscii named]
    split_ifs with control ascii astral
    · exact scanUnits_unicodeEscape code (by omega) rest more
    · rw [List.append_assoc,scanUnits_unicodeEscape _ (by omega) _ (by simp [unicodeEscape]),
        scanUnits_unicodeEscape _ (by omega) _ more]
      rfl
    · exact scanUnits_unicodeEscape code (by omega) rest more
    · simp only [Named,not_or] at named
      exact scanUnits_plain code rest named.1 named.2.1 control

theorem scanUnits_escaped {ε : Type} (ensureAscii : Bool) (text : Str)
    (bound : ∀ code ∈ text, code < 0x110000) (rest : Str) :
    scanUnits (ε := ε) (text.flatMap (escapeCode ensureAscii) ++ quote::rest) =
      .ok (text.flatMap (codeUnits ensureAscii),rest) := by
  induction text with
  | nil => exact scanUnits_quote rest
  | cons code text ih =>
    rw [List.flatMap_cons,List.append_assoc,
      scanUnits_escapeCode ensureAscii code (bound code List.mem_cons_self) _ (by simp),
      ih (fun next member => bound next (List.mem_cons_of_mem _ member)),List.flatMap_cons]
    generalize codeUnits ensureAscii code = units
    induction units with
    | nil => rfl
    | cons unit units step => rw [List.foldr_cons,step]; rfl

private theorem joinUnits_false (code : Nat) (rest : List (Bool × Nat)) :
    joinUnits ((false,code)::rest) = code::joinUnits rest := by
  cases rest with
  | nil => rfl
  | cons second rest => simp [joinUnits]

private theorem joinUnits_apart (first : Bool × Nat) (rest : List (Bool × Nat))
    (apart : ∀ second tail, rest = second::tail → isHigh first.2 = false ∨ isLow second.2 = false) :
    joinUnits (first::rest) = first.2::joinUnits rest := by
  cases rest with
  | nil => rfl
  | cons second rest =>
    rw [joinUnits,if_neg]
    rcases apart second rest rfl with high | low
    · simp [high]
    · simp [low]

private theorem codeUnits_false_single (code : Nat) : ∃ flag, codeUnits false code = [(flag,code)] ∧
    (isHigh code = true → flag = false) := by
  unfold codeUnits
  simp only [Bool.false_and,Bool.false_eq_true,if_false]
  split_ifs with named control
  · exact ⟨_,rfl,fun _ => rfl⟩
  · refine ⟨_,rfl,fun high => ?_⟩
    simp only [isHigh,Bool.and_eq_true,decide_eq_true_eq] at high
    omega
  · exact ⟨_,rfl,fun _ => rfl⟩

theorem joinUnits_raw (text : Str) : joinUnits (text.flatMap (codeUnits false)) = text := by
  induction text with
  | nil => rfl
  | cons code text ih =>
    obtain ⟨flag,single,raw⟩ := codeUnits_false_single code
    rw [List.flatMap_cons,single,List.singleton_append]
    cases flag with
    | false => rw [joinUnits_false,ih]
    | true =>
      rw [joinUnits_apart,ih]
      intro _ _ _
      exact Or.inl (by simpa using raw)

private theorem codeUnits_basic (code : Nat) (basic : code < 0x10000) : ∃ flag,
    codeUnits true code = [(flag,code)] ∧ (isSurrogate code = true → flag = true) := by
  have below : ¬ 0x10000 ≤ code := by omega
  unfold codeUnits
  split_ifs with named control ascii
  · refine ⟨_,rfl,fun surrogate => ?_⟩
    simp only [isSurrogate,Bool.and_eq_true,decide_eq_true_eq] at surrogate
    simp only [quote,backslash] at named
    omega
  · exact ⟨_,rfl,fun _ => rfl⟩
  · exact ⟨_,rfl,fun _ => rfl⟩
  · refine ⟨_,rfl,fun surrogate => ?_⟩
    simp only [isSurrogate,Bool.and_eq_true,decide_eq_true_eq,Bool.true_and] at surrogate ascii
    omega

private theorem codeUnits_astral (code : Nat) (astral : 0x10000 ≤ code) :
    codeUnits true code = [(true,0xD800 + (code - 0x10000) / 0x400 % 0x400),
      (true,0xDC00 + (code - 0x10000) % 0x400)] := by
  have named : ¬ (code = quote ∨ code = backslash ∨ code = 10 ∨ code = 13 ∨ code = 9 ∨ code = 8 ∨
    code = 12) := by
    simp only [quote,backslash]
    omega
  have control : ¬ code < 32 := by omega
  have ascii : (true && decide (127 ≤ code)) = true := by
    simp only [Bool.true_and,decide_eq_true_eq]
    omega
  rw [codeUnits,if_neg named,if_neg control,if_pos ascii,if_pos astral]

private theorem astral_pair (code : Nat) (astral : 0x10000 ≤ code) (bound : code < 0x110000) :
    isHigh (0xD800 + (code - 0x10000) / 0x400 % 0x400) = true ∧
    isLow (0xDC00 + (code - 0x10000) % 0x400) = true ∧
    joinPair (0xD800 + (code - 0x10000) / 0x400 % 0x400) (0xDC00 + (code - 0x10000) % 0x400) =
      code := by
  simp only [isHigh,isLow,Bool.and_eq_true,decide_eq_true_eq]
  unfold joinPair
  omega

private theorem high_surrogate (code : Nat) (high : isHigh code = true) :
    isSurrogate code = true ∧ code < 0x10000 := by
  simp only [isHigh,isSurrogate,Bool.and_eq_true,decide_eq_true_eq] at high ⊢
  omega

private theorem low_surrogate (code : Nat) (low : isLow code = true) :
    isSurrogate code = true ∧ code < 0x10000 := by
  simp only [isLow,isSurrogate,Bool.and_eq_true,decide_eq_true_eq] at low ⊢
  omega

private theorem codeUnits_head (code : Nat) (unit : Bool × Nat) (units : List (Bool × Nat))
    (shape : codeUnits true code = unit::units) (notLow : isLow code = false) :
    isLow unit.2 = false := by
  by_cases basic : code < 0x10000
  · obtain ⟨flag,single,-⟩ := codeUnits_basic code basic
    rw [single] at shape
    cases shape
    exact notLow
  · rw [codeUnits_astral code (by omega)] at shape
    cases shape
    simp only [isLow,Bool.and_eq_false_iff,decide_eq_false_iff_not]
    omega

private theorem codeUnits_ne_nil (ensureAscii : Bool) (code : Nat) :
    codeUnits ensureAscii code ≠ [] := by
  unfold codeUnits
  split_ifs <;> simp

theorem joinUnits_escaped (text : Str) (bound : ∀ code ∈ text, code < 0x110000) :
    joinUnits (text.flatMap (codeUnits true)) = joinSurrogates text := by
  -- The induction follows the reader: a pair is taken at once, any other code point alone.
  induction text using joinSurrogates.induct with
  | case1 => rfl
  | case2 code =>
    by_cases basic : code < 0x10000
    · obtain ⟨flag,single,-⟩ := codeUnits_basic code basic
      simp [single,joinUnits,joinSurrogates]
    · obtain ⟨high,low,joined⟩ := astral_pair code (by omega) (bound code List.mem_cons_self)
      simp [codeUnits_astral code (by omega),joinUnits,joinSurrogates,high,low,joined]
  | case3 first second rest paired ih =>
    simp only [Bool.and_eq_true] at paired
    obtain ⟨high,low⟩ := paired
    obtain ⟨flag,single,escaped⟩ := codeUnits_basic first (high_surrogate first high).2
    obtain ⟨flag',single',escaped'⟩ := codeUnits_basic second (low_surrogate second low).2
    have both : flag = true ∧ flag' = true :=
      ⟨escaped (high_surrogate first high).1,escaped' (low_surrogate second low).1⟩
    have later := ih (fun code member => bound code (by simp [member]))
    simp only [List.flatMap_cons,single,single',List.singleton_append,joinUnits,joinSurrogates,
      both.1,both.2,high,low,Bool.and_self,if_true,later]
  | case4 first second rest unpaired ih =>
    have later := ih (fun code member => bound code (List.mem_cons_of_mem _ member))
    rw [joinSurrogates,if_neg unpaired,← later,List.flatMap_cons]
    by_cases basic : first < 0x10000
    · obtain ⟨flag,single,-⟩ := codeUnits_basic first basic
      rw [single,List.singleton_append,joinUnits_apart]
      intro unit tail shape
      by_cases high : isHigh first = true
      · refine Or.inr ?_
        have notLow : isLow second = false := by simpa [high] using unpaired
        cases spelt : codeUnits true second with
        | nil => exact absurd spelt (codeUnits_ne_nil true second)
        | cons head more =>
          rw [List.flatMap_cons,spelt] at shape
          cases shape
          exact codeUnits_head second _ more spelt notLow
      · exact Or.inl (by simpa using high)
    · obtain ⟨high,low,joined⟩ := astral_pair first (by omega) (bound first List.mem_cons_self)
      simp [codeUnits_astral first (by omega),joinUnits,high,low,joined]

theorem scanString_written {ε : Type} (style : Style) (text : Str)
    (bound : ∀ code ∈ text, code < 0x110000) (rest : Str) :
    scanString (ε := ε) (text.flatMap (escapeCode style.ensureAscii) ++ quote::rest) =
      .ok (readBack style.ensureAscii text,rest) := by
  rw [scanString,scanUnits_escaped style.ensureAscii text bound rest]
  cases ascii : style.ensureAscii with
  | false => simp [readBack,joinUnits_raw]
  | true => simp [readBack,joinUnits_escaped text bound]

/-- What may follow a value: nothing, a separator, a closing bracket or a blank. -/
def Delimited (rest : Str) : Prop :=
  ∀ code ∈ rest.head?, code = 44 ∨ code = 93 ∨ code = 125 ∨ isSpace code = true

theorem Delimited.not_digit {rest : Str} (delimited : Delimited rest) :
    ∀ code ∈ rest.head?, isDigit code = false := by
  intro code member
  have known := delimited code member
  simp only [isSpace,isDigit,Bool.or_eq_true,beq_iff_eq,Bool.and_eq_false_iff,
    decide_eq_false_iff_not] at known ⊢
  omega

private theorem Delimited.code_ne {rest : Str} (delimited : Delimited rest) (bad : Nat)
    (outside : bad ≠ 44 ∧ bad ≠ 93 ∧ bad ≠ 125 ∧ isSpace bad = false) : rest.head? ≠ some bad := by
  intro same
  rcases delimited bad (by simp [same]) with h | h | h | h
  · exact outside.1 h
  · exact outside.2.1 h
  · exact outside.2.2.1 h
  · rw [outside.2.2.2] at h
    contradiction

private theorem DigitsThen.before {digits left rest : Str} (run : DigitsThen digits left)
    (delimited : Delimited rest) :
    DigitsThen digits (left ++ rest) := by
  refine ⟨run.all,?_⟩
  cases left with
  | nil => exact delimited.not_digit
  | cons code left => exact run.stops

private theorem scanFraction_append (text rest : Str) (fraction left : Str)
    (scanned : scanFraction text = some (fraction,left)) (delimited : Delimited rest) :
    scanFraction (text ++ rest) = some (fraction,left ++ rest) := by
  obtain ⟨rfl,digits,shape,filled,run⟩ := scanFraction_iff.mp scanned
  exact scanFraction_iff.mpr ⟨List.append_assoc _ _ _,digits,shape,filled,run.before delimited⟩

private theorem scanFraction_none (text rest : Str) (scanned : scanFraction text = none)
    (ends : text = [] ∨ ∃ code tail, text = code::tail ∧ code ≠ 46) (delimited : Delimited rest) :
    scanFraction (text ++ rest) = none := by
  rcases ends with rfl | ⟨code,tail,rfl,other⟩
  · match rest with
    | [] => rfl
    | [_] => rfl
    | point::digit::rest =>
      have apart : point ≠ 46 := fun same => delimited.code_ne 46 (by decide) (by simp [same])
      simp [scanFraction,apart]
  · cases more : tail ++ rest with
    | nil => simp [more,scanFraction]
    | cons digit tail => simp [more,scanFraction,other]

private theorem scanExponent_append (text rest : Str) (exponent left : Str)
    (scanned : scanExponent text = some (exponent,left)) (delimited : Delimited rest) :
    scanExponent (text ++ rest) = some (exponent,left ++ rest) := by
  obtain ⟨rfl,letter,sign,digits,shape,known,signed,filled,run⟩ := scanExponent_iff.mp scanned
  exact scanExponent_iff.mpr ⟨List.append_assoc _ _ _,letter,sign,digits,shape,known,signed,filled,
    run.before delimited⟩

private theorem scanExponent_none (rest : Str) (delimited : Delimited rest) :
    scanExponent rest = none := by
  match rest with
  | [] => rfl
  | [_] => rfl
  | letter::second::rest =>
    have lower : letter ≠ 101 := fun same => delimited.code_ne 101 (by decide) (by simp [same])
    have upper : letter ≠ 69 := fun same => delimited.code_ne 69 (by decide) (by simp [same])
    simp [scanExponent,lower,upper]

private theorem scanInteger_append (text rest : Str) (digits left : Str)
    (scanned : scanInteger text = some (digits,left)) (delimited : Delimited rest) :
    scanInteger (text ++ rest) = some (digits,left ++ rest) := by
  apply scanInteger_iff.mpr
  obtain ⟨rfl,zero | ⟨filled,unpadded,run⟩⟩ := scanInteger_iff.mp scanned
  · exact ⟨List.append_assoc _ _ _,Or.inl zero⟩
  · exact ⟨List.append_assoc _ _ _,Or.inr ⟨filled,unpadded,run.before delimited⟩⟩

/-- A text that is one numeral is scanned as that numeral in front of a delimiter. -/
theorem scanNumber_append (text rest : Str) (numeral : Numeral)
    (scanned : scanNumber text = some (numeral,[])) (delimited : Delimited rest) :
    scanNumber (text ++ rest) = some (numeral,rest) := by
  have nonempty : text ≠ [] := by rintro rfl; simp [scanNumber,scanInteger] at scanned
  have head : (text ++ rest).head? = text.head? := List.head?_append_of_ne_nil _ nonempty
  have tail : (text ++ rest).tail = text.tail ++ rest := List.tail_append_of_ne_nil nonempty
  have front : (if (text ++ rest).head? == some 45 then (text ++ rest).tail else text ++ rest) =
      (if text.head? == some 45 then text.tail else text) ++ rest := by
    rw [head,tail]
    split <;> rfl
  simp only [scanNumber] at scanned ⊢
  rw [front,head]
  generalize (if text.head? == some 45 then text.tail else text) = body at scanned ⊢
  cases integer : scanInteger body with
  | none => simp [integer] at scanned
  | some pair =>
    obtain ⟨digits,left⟩ := pair
    rw [scanInteger_append body rest digits left integer delimited]
    simp only [integer] at scanned
    cases fraction : scanFraction left with
    | some pair =>
      obtain ⟨fraction,left'⟩ := pair
      simp only [fraction,Option.getD_some] at scanned
      simp only [scanFraction_append left rest _ _ fraction delimited,Option.getD_some]
      cases exponent : scanExponent left' with
      | some pair =>
        simp only [exponent,Option.getD_some,Option.some.injEq,Prod.mk.injEq] at scanned
        obtain ⟨same,ended⟩ := scanned
        simp only [scanExponent_append left' rest _ _ exponent delimited,Option.getD_some,same,
          ended,List.nil_append]
      | none =>
        simp only [exponent,Option.getD_none,Option.some.injEq,Prod.mk.injEq] at scanned
        obtain ⟨same,rfl⟩ := scanned
        simp only [List.nil_append,scanExponent_none rest delimited,Option.getD_none,same]
    | none =>
      simp only [fraction,Option.getD_none] at scanned
      cases exponent : scanExponent left with
      | some pair =>
        have letter : ∃ code tail, left = code::tail ∧ code ≠ 46 := by
          obtain ⟨whole,code,sign,digits,shape,known,-⟩ := scanExponent_iff.mp exponent
          exact ⟨code,_,by rw [whole,shape,List.cons_append],by omega⟩
        simp only [exponent,Option.getD_some,Option.some.injEq,Prod.mk.injEq] at scanned
        obtain ⟨same,ended⟩ := scanned
        simp only [scanFraction_none left rest fraction (Or.inr letter) delimited,Option.getD_none,
          scanExponent_append left rest _ _ exponent delimited,Option.getD_some,same,ended,
          List.nil_append]
      | none =>
        simp only [exponent,Option.getD_none,Option.some.injEq,Prod.mk.injEq] at scanned
        obtain ⟨same,rfl⟩ := scanned
        have unsplit : scanFraction rest = none :=
          scanFraction_none [] rest rfl (Or.inl rfl) delimited
        simp only [List.nil_append,unsplit,Option.getD_none,scanExponent_none rest delimited,same]

private theorem scanFraction_text (text : Str) :
    ((scanFraction text).getD ([],text)).1 ++ ((scanFraction text).getD ([],text)).2 = text := by
  cases scanned : scanFraction text with
  | none => rfl
  | some pair => exact (scanFraction_iff.mp scanned).1.symm

private theorem scanExponent_text (text : Str) :
    ((scanExponent text).getD ([],text)).1 ++ ((scanExponent text).getD ([],text)).2 = text := by
  cases scanned : scanExponent text with
  | none => rfl
  | some pair => exact (scanExponent_iff.mp scanned).1.symm

/-- The text of the numeral is what the scanner passed over. -/
theorem scanNumber_text (text rest : Str) (numeral : Numeral)
    (scanned : scanNumber text = some (numeral,rest)) :
    numeral.text ++ rest = text := by
  simp only [scanNumber] at scanned
  split at scanned
  · contradiction
  · rename_i digits left integer
    cases scanned
    have body := (scanInteger_iff.mp integer).1.symm
    simp only [Numeral.text,List.append_assoc,scanExponent_text,scanFraction_text,body]
    split
    · rename_i negative
      obtain ⟨tail,rfl⟩ : ∃ tail, text = 45::tail := by
        cases text <;> simp_all
      simp
    · rfl

private theorem digits_all (value : Nat) (positive : value ≠ 0) :
    ∃ lead rest, (Nat.digits 10 value).reverse.map (48 + ·) = lead::rest ∧ lead ≠ 48 ∧
      ∀ code ∈ lead::rest, isDigit code = true := by
  have nonempty : Nat.digits 10 value ≠ [] := Nat.digits_ne_nil_iff_ne_zero.mpr positive
  have top := Nat.getLast_digit_ne_zero 10 positive
  have small : ∀ code ∈ (Nat.digits 10 value).reverse.map (48 + ·), isDigit code = true := by
    intro code member
    obtain ⟨digit,inside,rfl⟩ := List.mem_map.mp member
    have := Nat.digits_lt_base (by omega : 1 < 10) (List.mem_reverse.mp inside)
    simp only [isDigit,Bool.and_eq_true,decide_eq_true_eq]
    omega
  have shape : (Nat.digits 10 value).reverse.map (48 + ·) =
      (48 + (Nat.digits 10 value).getLast nonempty)::((Nat.digits 10 value).dropLast.reverse.map
        (48 + ·)) := by
    conv_lhs => rw [← List.dropLast_append_getLast nonempty]
    simp
  exact ⟨_,_,shape,by omega,by rw [← shape]; exact small⟩

theorem ofDigits_natText (value : Nat) : ofDigits (natText value) = value := by
  have fold (digits : List Nat) (start : Nat) :
      (digits.map (48 + ·)).foldl (fun value digit => 10 * value + (digit - 48)) start =
        digits.foldl (fun value digit => 10 * value + digit) start := by
    induction digits generalizing start with
    | nil => rfl
    | cons digit digits ih => simp [ih]
  unfold natText
  split_ifs with zero
  · simp [zero,ofDigits]
  · rw [ofDigits,fold,List.foldl_reverse]
    have read := Nat.ofDigits_eq_foldr 10 (Nat.digits 10 value)
    rw [Nat.ofDigits_digits] at read
    conv_rhs => rw [read]
    congr 1
    funext digit rest
    simp [Nat.add_comm]

theorem natText_injective {first second : Nat} (same : natText first = natText second) :
    first = second := by
  rw [← ofDigits_natText first,same,ofDigits_natText]

/-- The digits of a number are scanned up to what is none, and the first of them is no minus. -/
theorem scanInteger_natText (value : Nat) (rest : Str)
    (stops : ∀ code ∈ rest.head?, isDigit code = false) :
    scanInteger (natText value ++ rest) = some (natText value,rest) ∧
    (natText value ++ rest).head? ≠ some 45 := by
  have scanned : scanInteger (natText value ++ rest) = some (natText value,rest) := by
    unfold natText
    split_ifs with zero
    · rfl
    · obtain ⟨lead,digits,shape,nonzero,all⟩ := digits_all value zero
      rw [shape]
      exact scanInteger_iff.mpr ⟨rfl,Or.inr ⟨List.cons_ne_nil _ _,by simpa using nonzero,all,stops⟩⟩
  exact ⟨scanned,scanInteger_unsigned scanned⟩

/-- The digits of an integer are scanned in front of a delimiter. -/
theorem scanNumber_intText (value : Int) (rest : Str) (delimited : Delimited rest) :
    scanNumber (intText value ++ rest) =
      some (⟨decide (value < 0),natText value.natAbs,[],[]⟩,rest) := by
  obtain ⟨integer,head⟩ := scanInteger_natText value.natAbs rest delimited.not_digit
  have unsplit : scanFraction rest = none := scanFraction_none [] rest rfl (Or.inl rfl) delimited
  have unscaled := scanExponent_none rest delimited
  by_cases negative : value < 0
  · simp [scanNumber,intText,negative,integer,unsplit,unscaled]
  · have unsigned : ((natText value.natAbs ++ rest).head? == some 45) = false := by simpa using head
    simp only [scanNumber,intText,negative,if_false,List.nil_append,unsigned,Bool.false_eq_true,
      integer,unsplit,unscaled,Option.getD_none,decide_false]

theorem intText_injective {first second : Int} (same : intText first = intText second) :
    first = second := by
  have delimited : Delimited [] := fun code member => by simp at member
  have scanned := scanNumber_intText first [] delimited
  rw [same,scanNumber_intText second [] delimited] at scanned
  simp only [Option.some.injEq,Prod.mk.injEq,Numeral.mk.injEq,decide_eq_decide,and_true] at scanned
  have size := natText_injective scanned.2
  omega

section RoundTrip
variable {ε : Type} (format : FloatFormat)
    (hook : List (Str × Value) → Except ε (List (Str × Value)))

mutual
/-- The values that reading can give: code points in range, floats as they are written and
integers within the limit of digits. -/
def Sound : Value → Prop
  | .int value => (natText value.natAbs).length ≤ intMaxStrDigits
  | .float text => text = lit "NaN" ∨ text = lit "Infinity" ∨ text = lit "-Infinity" ∨
      (IsFloatText text ∧ format.text text = text)
  | .str value => ∀ code ∈ value, code < 0x110000
  | .list items => SoundItems items
  | .dict fields => SoundFields fields
  | .null => True
  | .bool _ => True
def SoundItems : List Value → Prop
  | [] => True
  | item::items => Sound item ∧ SoundItems items
def SoundFields : List (Str × Value) → Prop
  | [] => True
  | (key,value)::fields => (∀ code ∈ key, code < 0x110000) ∧ Sound value ∧ SoundFields fields
end

mutual
/-- What reading a written value gives: its strings read back, its objects seen by the hook. -/
def rebuild (ensureAscii : Bool) : Value → Except (Error ε) Value
  | .str value => .ok (.str (readBack ensureAscii value))
  | .list items => (rebuildItems ensureAscii items).map Value.list
  | .dict fields =>
    match rebuildFields ensureAscii fields with
    | .error error => .error error
    | .ok fields =>
      match hook fields with
      | .ok fields => .ok (.dict fields)
      | .error error => .error (.hook error)
  | .null => .ok .null
  | .bool value => .ok (.bool value)
  | .int value => .ok (.int value)
  | .float text => .ok (.float text)
def rebuildItems (ensureAscii : Bool) : List Value → Except (Error ε) (List Value)
  | [] => .ok []
  | item::items =>
    match rebuild ensureAscii item with
    | .error error => .error error
    | .ok item => (rebuildItems ensureAscii items).map (item::·)
def rebuildFields (ensureAscii : Bool) : List (Str × Value) → Except (Error ε) (List (Str × Value))
  | [] => .ok []
  | (key,value)::fields =>
    match rebuild ensureAscii value with
    | .error error => .error error
    | .ok value => (rebuildFields ensureAscii fields).map ((readBack ensureAscii key,value)::·)
end

private theorem natText_head (value : Nat) :
    ∃ code rest, natText value = code::rest ∧ isDigit code = true := by
  unfold natText
  split_ifs with zero
  · exact ⟨48,[],rfl,rfl⟩
  · obtain ⟨lead,rest,shape,-,all⟩ := digits_all value zero
    exact ⟨lead,rest,shape,all lead List.mem_cons_self⟩

private theorem numeral_head (text : Str) (numeral : Numeral) (rest : Str)
    (scanned : scanNumber text = some (numeral,rest)) :
    ∃ code more, (text = code::more ∨ text = 45::code::more) ∧ isDigit code = true := by
  simp only [scanNumber] at scanned
  split at scanned
  · contradiction
  · rename_i digits left integer
    have body : ∃ code more, (if text.head? == some 45 then text.tail else text) = code::more ∧
      isDigit code = true := by
      generalize (if text.head? == some 45 then text.tail else text) = body at integer
      cases body with
      | nil => simp [scanInteger] at integer
      | cons code more =>
        simp only [scanInteger] at integer
        split_ifs at integer with zero leading
        · exact ⟨code,more,rfl,by simp [zero,isDigit]⟩
        · exact ⟨code,more,rfl,leading⟩
    obtain ⟨code,more,shape,digit⟩ := body
    refine ⟨code,more,?_,digit⟩
    split_ifs at shape with negative
    · cases text with
      | nil => simp at negative
      | cons first text =>
        simp only [List.head?_cons,beq_iff_eq,Option.some.injEq] at negative
        exact Or.inr (by rw [negative]; exact congrArg _ shape)
    · exact Or.inl shape

/-- The first code point of a written value: no blank, no closing bracket and an ASCII one. -/
theorem dumps_head (style : Style) (value : Value) (sound : Sound format value) :
    ∃ code rest, dumps style value = code::rest ∧ isSpace code = false ∧ code ≠ 93 ∧ code ≠ 125 ∧
    code < 128 := by
  have ofDigit (code : Nat) (digit : isDigit code = true) :
      isSpace code = false ∧ code ≠ 93 ∧ code ≠ 125 ∧ code < 128 := by
    simp only [isDigit,Bool.and_eq_true,decide_eq_true_eq] at digit
    simp only [isSpace,Bool.or_eq_false_iff,beq_eq_false_iff_ne]
    omega
  cases value with
  | null => exact ⟨_,_,rfl,by decide⟩
  | bool value => cases value <;> exact ⟨_,_,rfl,by decide⟩
  | str value => exact ⟨_,_,rfl,by decide⟩
  | list items => exact ⟨_,_,rfl,by decide⟩
  | dict fields => exact ⟨_,_,rfl,by decide⟩
  | int value =>
    obtain ⟨code,rest,shape,digit⟩ := natText_head value.natAbs
    by_cases negative : value < 0
    · exact ⟨45,natText value.natAbs,by simp [dumps,intText,negative],by decide⟩
    · exact ⟨code,rest,by simp [dumps,intText,negative,shape],ofDigit code digit⟩
  | float text =>
    simp only [Sound] at sound
    rcases sound with rfl | rfl | rfl | ⟨⟨numeral,scanned,-⟩,-⟩
    · exact ⟨_,_,rfl,by decide⟩
    · exact ⟨_,_,rfl,by decide⟩
    · exact ⟨_,_,rfl,by decide⟩
    · obtain ⟨code,more,shape,digit⟩ := numeral_head text numeral [] scanned
      rcases shape with shape | shape
      · exact ⟨code,more,shape,ofDigit code digit⟩
      · exact ⟨45,code::more,shape,by decide⟩

private theorem constants_numeral (text : Str) (numeral : Numeral) (rest : Str)
    (scanned : scanNumber text = some (numeral,rest)) :
    constants.find? (fun constant => constant.1.isPrefixOf text) = none := by
  obtain ⟨code,more,shape,digit⟩ := numeral_head text numeral rest scanned
  have range : 48 ≤ code ∧ code ≤ 57 := by simpa [isDigit] using digit
  have other (bad : Nat) (outside : bad < 48 ∨ 57 < bad) : (bad == code) = false := by
    simp only [beq_eq_false_iff_ne]
    omega
  rcases shape with rfl | rfl
  · simp [constants,lit,List.isPrefixOf,other]
  · simp [constants,lit,List.isPrefixOf,other]

private theorem readValue_scalar (fuel : Nat) (code : Nat) (text : Str) (unquoted : code ≠ quote)
    (bracket : code ≠ 91) (brace : code ≠ 123) :
    readValue format hook (fuel + 1) (code::text) = readScalar format (code::text) := by
  rw [readValue]
  simp [unquoted,bracket,brace]

/-- A numeral in front of a delimiter is read as a number. -/
theorem readValue_numeral (fuel : Nat) (text rest : Str) (numeral : Numeral)
    (scanned : scanNumber (text ++ rest) = some (numeral,rest)) :
    readValue format hook (fuel + 1) (text ++ rest) = readNumber format (text ++ rest) := by
  obtain ⟨code,more,shape,digit⟩ := numeral_head _ numeral rest scanned
  have range : 48 ≤ code ∧ code ≤ 57 := by simpa [isDigit] using digit
  have constant := constants_numeral _ numeral rest scanned
  rcases shape with shape | shape
  · rw [shape] at constant ⊢
    rw [readValue_scalar format hook fuel code more (by simp only [quote]; omega)
      (by omega) (by omega),
      readScalar,constant]
  · rw [shape] at constant ⊢
    rw [readValue_scalar format hook fuel 45 _ (by decide) (by decide) (by decide),
      readScalar,constant]

private theorem skipSpace_head (code : Nat) (rest : Str) (solid : isSpace code = false) :
    skipSpace (code::rest) = code::rest := by
  simp [skipSpace,solid]

private theorem skipSpace_blank (spaced : Bool) (code : Nat) (rest : Str)
    (solid : isSpace code = false) :
    skipSpace ((if spaced then [32] else []) ++ code::rest) = code::rest := by
  cases spaced
  · simpa using skipSpace_head code rest solid
  · have blank : isSpace 32 = true := rfl
    simpa [skipSpace,blank] using skipSpace_head code rest solid

theorem Delimited.cons {code : Nat} (rest : Str) (known : code = 44 ∨ code = 93 ∨ code = 125 ∨
    isSpace code = true) :
    Delimited (code::rest) := by
  intro head member
  simp only [List.head?_cons,Option.mem_some_iff] at member
  exact member ▸ known

private theorem itemSeparator_shape (style : Style) :
    style.itemSeparator = 44::(if style.spaced then [32] else []) := by
  unfold Style.itemSeparator
  split <;> rfl

private theorem keySeparator_shape (style : Style) :
    style.keySeparator = 58::(if style.spaced then [32] else []) := by
  unfold Style.keySeparator
  split <;> rfl

private theorem readScalar_constant (name : Str) (value : Value) (rest : Str)
    (member : (name,value) ∈ constants) :
    readScalar (ε := ε) format (name ++ rest) = .ok (value,rest) := by
  have first : constants.find? (fun constant => constant.1.isPrefixOf (name ++ rest)) =
    some (name,value) := by
    simp only [constants,List.mem_cons,Prod.mk.injEq,List.not_mem_nil,or_false] at member
    rcases member with ⟨rfl,rfl⟩ | ⟨rfl,rfl⟩ | ⟨rfl,rfl⟩ | ⟨rfl,rfl⟩ | ⟨rfl,rfl⟩ | ⟨rfl,rfl⟩ <;>
      simp [constants,lit,List.isPrefixOf]
  rw [readScalar,first]
  simp

private theorem dumpItems_head (style : Style) (item : Value) (items : List Value)
    (sound : SoundItems format (item::items)) :
    ∃ code rest, dumpItems style (item::items) = code::rest ∧ isSpace code = false ∧
    code ≠ 93 ∧ code ≠ 125 ∧
      code < 128 := by
  obtain ⟨code,rest,shape,head⟩ := dumps_head format style item sound.1
  cases items with
  | nil => exact ⟨code,rest,by rw [dumpItems,shape],head⟩
  | cons next items =>
    exact ⟨code,rest ++ style.itemSeparator ++ dumpItems style (next::items),
      by simp [dumpItems,shape],head⟩

private theorem dumpFields_head (style : Style) (key : Str) (value : Value)
    (fields : List (Str × Value)) :
    ∃ rest, dumpFields style ((key,value)::fields) = quote::rest := by
  cases fields <;> exact ⟨_,by simp [dumpFields,writeString]; rfl⟩

mutual
/-- Reading a written value in front of a delimiter. The induction is on the value; the length of
its text pays for the fuel, two brackets or a separator for every call that reads nothing. -/
theorem readValue_dumps (style : Style) : (value : Value) → Sound format value → (fuel : Nat) →
    (dumps style value).length ≤ fuel → (rest : Str) → Delimited rest →
    readValue format hook fuel (dumps style value ++ rest) =
      (rebuild hook style.ensureAscii value).map (fun value => (value,rest))
  | .null, _, fuel, enough, rest, _ => by
    obtain ⟨fuel,rfl⟩ :=
      Nat.exists_eq_add_of_le' (Nat.le_trans (by simp [dumps,lit] : 1 ≤ _) enough)
    have read := readScalar_constant (ε := ε) format (lit "null") .null rest (by simp [constants])
    exact (readValue_scalar format hook fuel _ _ (by decide) (by decide) (by decide)).trans read
  | .bool true, _, fuel, enough, rest, _ => by
    obtain ⟨fuel,rfl⟩ :=
      Nat.exists_eq_add_of_le' (Nat.le_trans (by simp [dumps,lit] : 1 ≤ _) enough)
    have read := readScalar_constant (ε := ε) format (lit "true") (.bool true) rest
      (by simp [constants])
    exact (readValue_scalar format hook fuel _ _ (by decide) (by decide) (by decide)).trans read
  | .bool false, _, fuel, enough, rest, _ => by
    obtain ⟨fuel,rfl⟩ :=
      Nat.exists_eq_add_of_le' (Nat.le_trans (by simp [dumps,lit] : 1 ≤ _) enough)
    have read := readScalar_constant (ε := ε) format (lit "false") (.bool false) rest
      (by simp [constants])
    exact (readValue_scalar format hook fuel _ _ (by decide) (by decide) (by decide)).trans read
  | .int value, sound, fuel, enough, rest, delimited => by
    have scanned := scanNumber_intText value rest delimited
    have filled : 1 ≤ (dumps style (.int value)).length := by
      obtain ⟨code,more,shape,-⟩ := dumps_head format style (.int value) sound
      simp [shape]
    obtain ⟨fuel,rfl⟩ := Nat.exists_eq_add_of_le' (Nat.le_trans filled enough)
    simp only [Sound] at sound
    rw [dumps,readValue_numeral format hook fuel _ rest _ scanned,readNumber,scanned]
    simp only [Numeral.isFloat,List.isEmpty_nil,Bool.and_self,Bool.not_true,
      Bool.false_eq_true,if_false,
      Nat.not_lt.mpr sound,ofDigits_natText,decide_eq_true_eq,rebuild,Except.map]
    split_ifs with negative <;> simp only [Except.ok.injEq,Prod.mk.injEq,Value.int.injEq,
      and_true] <;> omega
  | .float text, sound, fuel, enough, rest, delimited => by
    have filled : 1 ≤ (dumps style (.float text)).length := by
      obtain ⟨code,more,shape,-⟩ := dumps_head format style (.float text) sound
      simp [shape]
    obtain ⟨fuel,rfl⟩ := Nat.exists_eq_add_of_le' (Nat.le_trans filled enough)
    simp only [Sound] at sound
    rcases sound with rfl | rfl | rfl | ⟨⟨numeral,scanned,isFloat⟩,canonical⟩
    · have read := readScalar_constant (ε := ε) format (lit "NaN") (.float (lit "NaN")) rest
        (by simp [constants])
      exact (readValue_scalar format hook fuel _ _ (by decide) (by decide) (by decide)).trans read
    · have read := readScalar_constant (ε := ε) format (lit "Infinity") (.float (lit "Infinity"))
        rest (by simp [constants])
      exact (readValue_scalar format hook fuel _ _ (by decide) (by decide) (by decide)).trans read
    · have read := readScalar_constant (ε := ε) format (lit "-Infinity") (.float (lit "-Infinity"))
        rest (by simp [constants])
      exact (readValue_scalar format hook fuel _ _ (by decide) (by decide) (by decide)).trans read
    · have followed := scanNumber_append text rest numeral scanned delimited
      have written : numeral.text = text := by simpa using scanNumber_text text [] numeral scanned
      rw [dumps,readValue_numeral format hook fuel text rest numeral followed,readNumber,followed]
      simp [isFloat,written,canonical,rebuild,Except.map]
  | .str value, sound, fuel, enough, rest, _ => by
    obtain ⟨fuel,rfl⟩ :=
      Nat.exists_eq_add_of_le' (Nat.le_trans (by simp [dumps,writeString] : 1 ≤ _) enough)
    simp only [Sound] at sound
    simp only [dumps,writeString,List.cons_append,List.append_assoc,List.nil_append]
    rw [readValue]
    simp [scanString_written style value sound rest,rebuild,Except.map]
  | .list [], _, fuel, enough, rest, _ => by
    obtain ⟨fuel,rfl⟩ := Nat.exists_eq_add_of_le' (Nat.le_trans (by simp [dumps] : 1 ≤ _) enough)
    have closed := skipSpace_head 93 rest rfl
    simp only [dumps,dumpItems,List.cons_append,List.nil_append]
    rw [readValue]
    simp [closed,rebuild,rebuildItems,Except.map,quote]
  | .list (item::items), sound, fuel, enough, rest, _ => by
    simp only [Sound] at sound
    obtain ⟨fuel,rfl⟩ := Nat.exists_eq_add_of_le' (Nat.le_trans (by simp [dumps] : 1 ≤ _) enough)
    simp only [dumps,List.cons_append,List.length_append,List.length_cons,List.length_nil] at enough
    have later := readItems_dumps style item items sound fuel (by omega) rest
    obtain ⟨code,more,shape,solid,unclosed,-⟩ := dumpItems_head format style item items sound
    have start := skipSpace_head code (more ++ 93::rest) solid
    simp only [dumps,List.cons_append,List.append_assoc,List.nil_append]
    rw [readValue]
    rw [shape,List.cons_append] at later ⊢
    simp only [quote,start,List.head?_cons,Option.some.injEq,unclosed,if_false,if_true,later]
    simp only [rebuild,Nat.reduceEqDiff,if_false]
    cases rebuildItems hook style.ensureAscii (item::items) <;> rfl
  | .dict [], _, fuel, enough, rest, _ => by
    obtain ⟨fuel,rfl⟩ := Nat.exists_eq_add_of_le' (Nat.le_trans (by simp [dumps] : 1 ≤ _) enough)
    have closed := skipSpace_head 125 rest rfl
    simp only [dumps,dumpFields,List.cons_append,List.nil_append]
    rw [readValue]
    simp only [quote,closed,List.head?_cons,List.tail_cons,Nat.reduceEqDiff,if_false,if_true,
      rebuild,rebuildFields]
    cases hook [] <;> rfl
  | .dict ((key,value)::fields), sound, fuel, enough, rest, _ => by
    simp only [Sound] at sound
    obtain ⟨fuel,rfl⟩ := Nat.exists_eq_add_of_le' (Nat.le_trans (by simp [dumps] : 1 ≤ _) enough)
    simp only [dumps,List.cons_append,List.length_append,List.length_cons,List.length_nil] at enough
    have later := readMembers_dumps style key value fields sound fuel (by omega) rest
    obtain ⟨more,shape⟩ := dumpFields_head style key value fields
    have start := skipSpace_head quote (more ++ 125::rest) rfl
    simp only [dumps,List.cons_append,List.append_assoc,List.nil_append]
    rw [readValue]
    rw [shape,List.cons_append] at later ⊢
    simp only [start,List.head?_cons,later]
    simp only [quote,Option.some.injEq,rebuild,Nat.reduceEqDiff,if_false,if_true]
    cases rebuildFields hook style.ensureAscii ((key,value)::fields) with
    | error error => rfl
    | ok fields => cases read : hook fields <;> simp [Except.map,read]
termination_by _ _ fuel => fuel
theorem readItems_dumps (style : Style) :
    (item : Value) → (items : List Value) → SoundItems format (item::items) →
    (fuel : Nat) → (dumpItems style (item::items)).length + 1 ≤ fuel → (rest : Str) →
    readItems format hook fuel (dumpItems style (item::items) ++ 93::rest) =
      (rebuildItems hook style.ensureAscii (item::items)).map (fun items => (items,rest))
  | item, [], sound, fuel, enough, rest => by
    obtain ⟨fuel,rfl⟩ := Nat.exists_eq_add_of_le' (Nat.le_trans (by simp : 1 ≤ _) enough)
    simp only [dumpItems] at enough ⊢
    have first := readValue_dumps style item sound.1 fuel (by omega) (93::rest)
      (Delimited.cons rest (by simp))
    rw [readItems,first]
    cases rebuilt : rebuild hook style.ensureAscii item with
    | error error => simp [rebuildItems,rebuilt,Except.map]
    | ok item => simp [rebuildItems,rebuilt,Except.map,skipSpace_head 93 rest rfl]
  | item, next::items, sound, fuel, enough, rest => by
    obtain ⟨fuel,rfl⟩ := Nat.exists_eq_add_of_le' (Nat.le_trans (by simp : 1 ≤ _) enough)
    simp only [dumpItems,itemSeparator_shape,List.length_append,List.length_cons] at enough
    obtain ⟨code,more,shape,solid,unclosed,-⟩ := dumpItems_head format style next items sound.2
    have later := readItems_dumps style next items sound.2 fuel (by omega) rest
    have first := readValue_dumps style item sound.1 fuel (by omega)
      (44::((if style.spaced then [32] else []) ++ (code::more) ++ 93::rest))
      (Delimited.cons _ (by simp))
    rw [shape] at later
    have start := skipSpace_blank style.spaced code (more ++ 93::rest) solid
    simp only [dumpItems,itemSeparator_shape,shape,List.append_assoc,
      List.cons_append] at first start later ⊢
    rw [readItems,first,rebuildItems]
    cases rebuild hook style.ensureAscii item with
    | error error => rfl
    | ok item =>
      simp only [Except.map,skipSpace_head 44 _ rfl,start,List.head?_cons,Option.some.injEq,
        unclosed,later,Nat.reduceEqDiff,if_false,if_true]
      cases rebuildItems hook style.ensureAscii (next::items) <;> rfl
termination_by _ _ _ fuel => fuel
theorem readMembers_dumps (style : Style) :
    (key : Str) → (value : Value) → (fields : List (Str × Value)) →
    SoundFields format ((key,value)::fields) →
    (fuel : Nat) → (dumpFields style ((key,value)::fields)).length + 1 ≤ fuel → (rest : Str) →
    readMembers format hook fuel (dumpFields style ((key,value)::fields) ++ 125::rest) =
      (rebuildFields hook style.ensureAscii ((key,value)::fields)).map (fun fields => (fields,rest))
  | key, value, [], sound, fuel, enough, rest => by
    obtain ⟨fuel,rfl⟩ := Nat.exists_eq_add_of_le' (Nat.le_trans (by simp : 1 ≤ _) enough)
    obtain ⟨inRange,soundValue,-⟩ := sound
    obtain ⟨code,more,shape,solid,-,-⟩ := dumps_head format style value soundValue
    simp only [dumpFields,keySeparator_shape,List.length_append,List.length_cons] at enough
    have first := readValue_dumps style value soundValue fuel (by omega) (125::rest)
      (Delimited.cons rest (by simp))
    rw [shape] at first
    have start := skipSpace_blank style.spaced code (more ++ 125::rest) solid
    simp only [dumpFields,writeString,keySeparator_shape,shape,List.append_assoc,List.cons_append,
      List.nil_append] at first start ⊢
    rw [readMembers]
    simp only [scanString_written style key inRange,skipSpace_head 58 _ rfl,start,first,
      rebuildFields,if_true]
    cases rebuild hook style.ensureAscii value with
    | error error => rfl
    | ok value => simp [Except.map,skipSpace_head 125 rest rfl]
  | key, value, (next,second)::fields, sound, fuel, enough, rest => by
    obtain ⟨fuel,rfl⟩ := Nat.exists_eq_add_of_le' (Nat.le_trans (by simp : 1 ≤ _) enough)
    obtain ⟨inRange,soundValue,soundFields⟩ := sound
    obtain ⟨code,more,shape,solid,-,-⟩ := dumps_head format style value soundValue
    obtain ⟨tail,shape'⟩ := dumpFields_head style next second fields
    simp only [dumpFields.eq_3,keySeparator_shape,itemSeparator_shape,List.length_append,
      List.length_cons] at enough
    have later := readMembers_dumps style next second fields soundFields fuel (by omega) rest
    have first := readValue_dumps style value soundValue fuel (by omega)
      (44::((if style.spaced then [32] else []) ++ (quote::tail) ++ 125::rest))
      (Delimited.cons _ (by simp))
    rw [shape'] at later
    rw [shape] at first
    have start := skipSpace_blank style.spaced code
      (more ++ 44::((if style.spaced then [32] else []) ++ (quote::tail) ++ 125::rest)) solid
    have start' := skipSpace_blank style.spaced quote (tail ++ 125::rest) rfl
    simp only [dumpFields.eq_3,writeString,keySeparator_shape,itemSeparator_shape,shape,shape',
      List.append_assoc,List.cons_append,List.nil_append] at first start start' later ⊢
    rw [readMembers]
    rw [rebuildFields]
    simp only [scanString_written style key inRange,skipSpace_head 58 _ rfl,start,first,if_true]
    cases rebuild hook style.ensureAscii value with
    | error error => rfl
    | ok value =>
      simp only [Except.map,skipSpace_head 44 _ rfl,start',List.head?_cons,Option.some.injEq,later,
        Nat.reduceEqDiff,if_false,if_true]
      simp only [quote,Nat.reduceEqDiff,if_false]
      cases rebuildFields hook style.ensureAscii ((next,second)::fields) <;> rfl
termination_by _ _ _ _ fuel => fuel
end

/-- Reading a whole written text. -/
theorem loads_dumps (style : Style) (value : Value) (sound : Sound format value) :
    loads format hook (dumps style value) = rebuild hook style.ensureAscii value := by
  obtain ⟨code,more,shape,solid,-,-,ascii⟩ := dumps_head format style value sound
  have read := readValue_dumps format hook style value sound (2 * (dumps style value).length +
    2) (by omega) []
    (by intro code member; simp at member)
  have start : skipSpace (dumps style value) = dumps style value := by
    rw [shape]; exact skipSpace_head code more solid
  have unmarked : (dumps style value).head? ≠ some 0xFEFF := by
    rw [shape,List.head?_cons,ne_eq,Option.some.injEq]
    omega
  rw [List.append_nil] at read
  rw [loads,if_neg unmarked,decode,start,read]
  cases rebuild hook style.ensureAscii value <;> rfl

end RoundTrip

end QuilrMcp.Library.Json
