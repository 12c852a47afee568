import QuilrMcp.Library.Json
import Mathlib.Data.List.TakeWhile
import Mathlib.Tactic.Common

/-! What one call of the reader does, and what is written for one code. The proofs about reading and writing go
through these cases. -/
namespace QuilrMcp.Library.Json
open Text

/-- The units of a string are scanned off the front of the text, its closing quote with them. -/
inductive Scans : Str → List (Bool × Nat) → Str → Prop
  | closed {rest : Str} : Scans (quote::rest) [] rest
  | numbered {a b c d value : Nat} {text rest : Str} {units : List (Bool × Nat)} : text ≠ [] →
      hex4 a b c d = some value → Scans text units rest →
      Scans (backslash::117::a::b::c::d::text) ((true,value)::units) rest
  | escaped {letter value : Nat} {text rest : Str} {units : List (Bool × Nat)} : letter ≠ 117 →
      simpleEscape letter = some value → Scans text units rest →
      Scans (backslash::letter::text) ((false,value)::units) rest
  | plain {code : Nat} {text rest : Str} {units : List (Bool × Nat)} :
      code ≠ quote → code ≠ backslash → 32 ≤ code →
      Scans text units rest → Scans (code::text) ((false,code)::units) rest

theorem consUnit_ok {ε : Type} {unit : Bool × Nat}
    {result : Except (Error ε) (List (Bool × Nat) × Str)} {units : List (Bool × Nat)} {rest : Str}
    (read : consUnit unit result = .ok (units,rest)) :
    ∃ tail, units = unit::tail ∧ result = .ok (tail,rest) := by
  cases result with
  | error error => simp [consUnit] at read
  | ok pair =>
    cases read
    exact ⟨pair.1,rfl,rfl⟩

private theorem scans_of_units {ε : Type} (text : Str) {units : List (Bool × Nat)} {rest : Str}
    (read : scanUnits (ε := ε) text = .ok (units,rest)) : Scans text units rest := by
  rw [scanUnits.eq_def] at read
  split at read
  · contradiction
  · split_ifs at read with closed escape control
    · rw [closed]
      cases read
      exact .closed
    · rw [escape]
      split at read
      · contradiction
      · split_ifs at read with unicode
        · rw [unicode]
          split at read
          · split_ifs at read with ended
            split at read
            · rename_i hex
              obtain ⟨more,rfl,later⟩ := consUnit_ok read
              exact .numbered (mt List.isEmpty_iff.mpr ended) hex (scans_of_units _ later)
            · contradiction
          · contradiction
        · split at read
          · rename_i simple
            obtain ⟨more,rfl,later⟩ := consUnit_ok read
            exact .escaped unicode simple (scans_of_units _ later)
          · contradiction
    · obtain ⟨more,rfl,later⟩ := consUnit_ok read
      exact .plain closed escape (Nat.le_of_not_lt control) (scans_of_units _ later)
termination_by text.length

theorem scanUnits_iff {ε : Type} {text rest : Str} {units : List (Bool × Nat)} :
    scanUnits (ε := ε) text = .ok (units,rest) ↔ Scans text units rest := by
  constructor
  · exact scans_of_units text
  · intro scans
    induction scans with
    | closed =>
      rw [scanUnits.eq_def]
      simp
    | numbered filled hex _ ih =>
      rw [scanUnits.eq_def]
      simp [filled,hex,ih,consUnit,quote,backslash]
    | escaped other simple _ ih =>
      rw [scanUnits.eq_def]
      simp [other,simple,ih,consUnit,quote,backslash]
    | plain unquoted unescaped printable _ ih =>
      rw [scanUnits.eq_def]
      simp [unquoted,unescaped,Nat.not_lt.mpr printable,ih,consUnit]

theorem scanString_iff {ε : Type} {text value rest : Str} :
    scanString (ε := ε) text = .ok (value,rest) ↔
    ∃ units, Scans text units rest ∧ value = joinUnits units := by
  constructor
  · intro read
    simp only [scanString] at read
    split at read
    · rename_i scanned
      cases read
      exact ⟨_,scanUnits_iff.mp scanned,rfl⟩
    · contradiction
  · rintro ⟨units,scans,rfl⟩
    rw [scanString,scanUnits_iff.mpr scans]

/-- A code that is no mark is scanned as it stands. -/
theorem scans_plain {code : Nat} {text rest : Str} {units : List (Bool × Nat)}
    (unquoted : code ≠ quote) (unescaped : code ≠ backslash) (printable : 32 ≤ code) :
    Scans (code::text) units rest ↔ ∃ more, units = (false,code)::more ∧ Scans text more rest := by
  constructor
  · intro scans
    cases scans with
    | closed => exact absurd rfl unquoted
    | numbered _ _ _ => exact absurd rfl unescaped
    | escaped _ _ _ => exact absurd rfl unescaped
    | plain _ _ _ later => exact ⟨_,rfl,later⟩
  · rintro ⟨more,rfl,later⟩
    exact .plain unquoted unescaped printable later

theorem simpleEscape_small {letter value : Nat} (read : simpleEscape letter = some value) :
    letter < 128 ∧ value < 128 := by
  by_cases small : letter < 128
  · exact ⟨small,(by decide : ∀ letter < 128, ∀ value ∈ simpleEscape letter, value < 128) letter
      small value read⟩
  · rw [simpleEscape,if_neg (by simp only [quote]; omega),if_neg (by simp only [backslash]; omega),
      if_neg (by omega),if_neg (by omega),if_neg (by omega),if_neg (by omega),if_neg (by omega),
      if_neg (by omega)] at read
    contradiction
theorem hexDigit_small {code value : Nat} (read : hexDigit code = some value) :
    code < 128 ∧ value < 16 := by
  unfold hexDigit at read
  split_ifs at read
  all_goals
    cases read
    omega

theorem hex4_small {a b c d value : Nat} (read : hex4 a b c d = some value) :
    (a < 128 ∧ b < 128 ∧ c < 128 ∧ d < 128) ∧ value < 0x10000 := by
  simp only [hex4,Option.bind_eq_bind,Option.bind_eq_some_iff,Option.pure_def,
    Option.some.injEq] at read
  obtain ⟨w,first,x,second,y,third,z,fourth,rfl⟩ := read
  have first := hexDigit_small first
  have second := hexDigit_small second
  have third := hexDigit_small third
  have fourth := hexDigit_small fourth
  exact ⟨⟨first.1,second.1,third.1,fourth.1⟩,by omega⟩

/-- The codes whose escape has a letter of its own. -/
abbrev Named (code : Nat) : Prop :=
  code = quote ∨ code = backslash ∨ code = 10 ∨ code = 13 ∨ code = 9 ∨ code = 8 ∨ code = 12

theorem escapeCode_named (ensureAscii : Bool) {code : Nat} (named : Named code) :
    ∃ letter ∈ lit "\"\\bfnrt", simpleEscape letter = some code ∧
    escapeCode ensureAscii code = [backslash,letter] := by
  rcases named with rfl | rfl | rfl | rfl | rfl | rfl | rfl
  · exact ⟨quote,by decide,rfl,rfl⟩
  · exact ⟨backslash,by decide,rfl,rfl⟩
  · exact ⟨110,by decide,rfl,rfl⟩
  · exact ⟨114,by decide,rfl,rfl⟩
  · exact ⟨116,by decide,rfl,rfl⟩
  · exact ⟨98,by decide,rfl,rfl⟩
  · exact ⟨102,by decide,rfl,rfl⟩

theorem escapeCode_unnamed (ensureAscii : Bool) {code : Nat} (unnamed : ¬ Named code) :
    escapeCode ensureAscii code = if code < 32 then unicodeEscape code
      else if ensureAscii && 127 ≤ code then
        if 0x10000 ≤ code then
          unicodeEscape (0xD800 + (code - 0x10000) / 0x400 % 0x400) ++
            unicodeEscape (0xDC00 + (code - 0x10000) % 0x400)
        else unicodeEscape code
      else [code] := by
  simp only [Named,not_or] at unnamed
  obtain ⟨quoted,escaped,newline,return_,tab,back,form⟩ := unnamed
  rw [escapeCode,if_neg quoted,if_neg escaped,if_neg newline,if_neg return_,if_neg tab,
    if_neg back,if_neg form]

/-- Digits, and what follows them is none. -/
structure DigitsThen (digits rest : Str) : Prop where
  all : ∀ code ∈ digits, isDigit code = true
  stops : ∀ code ∈ rest.head?, isDigit code = false

theorem span_iff {text digits rest : Str} :
    (text.takeWhile isDigit = digits ∧ text.dropWhile isDigit = rest) ↔
    text = digits ++ rest ∧ DigitsThen digits rest := by
  constructor
  · rintro ⟨rfl,rfl⟩
    refine ⟨List.takeWhile_append_dropWhile.symm,fun _ member => List.mem_takeWhile_imp member,
      fun code member => ?_⟩
    have known := List.head?_dropWhile_not isDigit text
    rw [Option.mem_def.mp member] at known
    simpa using known
  · rintro ⟨rfl,run⟩
    have ended : rest.takeWhile isDigit = [] ∧ rest.dropWhile isDigit = rest := by
      cases rest with
      | nil => simp
      | cons code rest => simp [run.stops code (by simp)]
    rw [List.takeWhile_append_of_pos run.all,List.dropWhile_append_of_pos run.all,ended.1,ended.2,
      List.append_nil]
    exact ⟨rfl,rfl⟩

theorem scanFraction_iff {text fraction rest : Str} : scanFraction text = some (fraction,rest) ↔
    text = fraction ++ rest ∧ ∃ digits, fraction = 46::digits ∧ digits ≠ [] ∧
    DigitsThen digits rest := by
  constructor
  · intro scanned
    match text with
    | [] => contradiction
    | [_] => contradiction
    | point::digit::text =>
      simp only [scanFraction] at scanned
      split_ifs at scanned with shape
      cases scanned
      obtain ⟨rfl,leading⟩ := shape
      obtain ⟨whole,run⟩ := span_iff.mp ⟨rfl,rfl⟩
      refine ⟨by rw [List.cons_append,List.cons_append,← whole],_,rfl,List.cons_ne_nil _ _,?_,run.stops⟩
      exact List.forall_mem_cons.mpr ⟨leading,run.all⟩
  · rintro ⟨rfl,digits,rfl,filled,run⟩
    obtain ⟨digit,digits,rfl⟩ := List.exists_cons_of_ne_nil filled
    obtain ⟨leading,all⟩ := List.forall_mem_cons.mp run.all
    obtain ⟨taken,dropped⟩ := span_iff.mpr ⟨rfl,⟨all,run.stops⟩⟩
    rw [List.cons_append,List.cons_append,scanFraction,if_pos ⟨rfl,leading⟩,taken,dropped]

theorem scanExponent_iff {text exponent rest : Str} : scanExponent text = some (exponent,rest) ↔
    text = exponent ++ rest ∧ ∃ letter sign digits, exponent = letter::(sign ++ digits) ∧
    (letter = 101 ∨ letter = 69) ∧
      (sign = [] ∨ sign = [43] ∨ sign = [45]) ∧ digits ≠ [] ∧ DigitsThen digits rest := by
  constructor
  · intro scanned
    match text with
    | [] => contradiction
    | [_] => contradiction
    | letter::second::text =>
      obtain ⟨whole,run⟩ := (@span_iff text _ _).mp ⟨rfl,rfl⟩
      simp only [scanExponent] at scanned
      split_ifs at scanned with shape sign none digit
      · cases scanned
        refine ⟨by rw [List.cons_append,List.cons_append,← whole],letter,[second],_,rfl,shape,?_,?_,run⟩
        · exact Or.inr (by simpa using sign)
        · simpa using none
      · cases scanned
        refine ⟨by rw [List.cons_append,List.cons_append,← whole],letter,[],_,rfl,shape,Or.inl rfl,List.cons_ne_nil _ _,?_,run.stops⟩
        exact List.forall_mem_cons.mpr ⟨digit,run.all⟩
  · rintro ⟨rfl,letter,sign,digits,rfl,shape,signed,filled,run⟩
    have signedCase (second : Nat) (sign : second = 43 ∨ second = 45) :
        scanExponent (letter::second::(digits ++ rest)) = some (letter::second::digits,rest) := by
      obtain ⟨taken,dropped⟩ := span_iff.mpr ⟨rfl,run⟩
      rw [scanExponent,if_pos shape,if_pos sign,taken,dropped,if_neg (by simpa using filled)]
    rcases signed with rfl | rfl | rfl
    · obtain ⟨digit,digits,rfl⟩ := List.exists_cons_of_ne_nil filled
      obtain ⟨leading,all⟩ := List.forall_mem_cons.mp run.all
      obtain ⟨taken,dropped⟩ := span_iff.mpr ⟨rfl,⟨all,run.stops⟩⟩
      have unsigned : ¬ (digit = 43 ∨ digit = 45) := by
        rintro (rfl | rfl) <;> contradiction
      rw [List.nil_append,List.cons_append,List.cons_append,scanExponent,if_pos shape,
        if_neg unsigned,if_pos leading,taken,dropped]
    · exact signedCase 43 (Or.inl rfl)
    · exact signedCase 45 (Or.inr rfl)

theorem scanInteger_iff {text digits rest : Str} : scanInteger text = some (digits,rest) ↔
    text = digits ++ rest ∧ (digits = [48] ∨ (digits ≠ [] ∧ digits.head? ≠ some 48 ∧
      DigitsThen digits rest)) := by
  constructor
  · intro scanned
    cases text with
    | nil => contradiction
    | cons digit text =>
      simp only [scanInteger] at scanned
      split_ifs at scanned with zero leading
      · rw [zero]
        cases scanned
        exact ⟨rfl,Or.inl rfl⟩
      · cases scanned
        obtain ⟨whole,run⟩ := (@span_iff text _ _).mp ⟨rfl,rfl⟩
        refine ⟨by rw [List.cons_append,← whole],Or.inr ⟨List.cons_ne_nil _ _,by simpa using zero,?_,run.stops⟩⟩
        exact List.forall_mem_cons.mpr ⟨leading,run.all⟩
  · rintro ⟨rfl,rfl | ⟨filled,unpadded,run⟩⟩
    · rfl
    · obtain ⟨digit,digits,rfl⟩ := List.exists_cons_of_ne_nil filled
      obtain ⟨leading,all⟩ := List.forall_mem_cons.mp run.all
      obtain ⟨taken,dropped⟩ := span_iff.mpr ⟨rfl,⟨all,run.stops⟩⟩
      rw [List.cons_append,scanInteger,if_neg (by simpa using unpadded),if_pos leading,
        taken,dropped]

theorem scanInteger_unsigned {text digits rest : Str}
    (scanned : scanInteger text = some (digits,rest)) :
    text.head? ≠ some 45 := by
  intro signed
  obtain ⟨more,rfl⟩ := List.head?_eq_some_iff.mp signed
  contradiction

section Steps
variable {ε : Type} (format : FloatFormat)
    (hook : List (Str × Value) → Except ε (List (Str × Value)))

/-- A value at the front of the text, with its parts read on the fuel that is left. -/
inductive ValueStep (fuel : Nat) : Str → Value → Str → Prop
  | string {text value rest : Str} : scanString (ε := ε) text = .ok (value,rest) →
      ValueStep fuel (quote::text) (.str value) rest
  | emptyList {text rest : Str} : skipSpace text = 93::rest →
      ValueStep fuel (91::text) (.list []) rest
  | list {text rest : Str} {items : List Value} : (skipSpace text).head? ≠ some 93 →
      readItems format hook fuel (skipSpace text) = .ok (items,rest) →
      ValueStep fuel (91::text) (.list items) rest
  | emptyDict {text rest : Str} {fields : List (Str × Value)} : skipSpace text = 125::rest →
      hook [] = .ok fields →
      ValueStep fuel (123::text) (.dict fields) rest
  | dict {text rest : Str} {members fields : List (Str × Value)} :
      (skipSpace text).head? ≠ some 125 →
      readMembers format hook fuel (skipSpace text) = .ok (members,rest) →
      hook members = .ok fields →
      ValueStep fuel (123::text) (.dict fields) rest
  | scalar {code : Nat} {text rest : Str} {value : Value} : code ≠ quote → code ≠ 91 → code ≠ 123 →
      readScalar (ε := ε) format (code::text) = .ok (value,rest) →
      ValueStep fuel (code::text) value rest

inductive ItemsStep (fuel : Nat) : Str → List Value → Str → Prop
  | last {text left rest : Str} {item : Value} : readValue format hook fuel text = .ok (item,left) →
      skipSpace left = 93::rest → ItemsStep fuel text [item] rest
  | more {text left again rest : Str} {item : Value} {items : List Value} :
      readValue format hook fuel text = .ok (item,left) → skipSpace left = 44::again →
      (skipSpace again).head? ≠ some 93 →
      readItems format hook fuel (skipSpace again) = .ok (items,rest) →
      ItemsStep fuel text (item::items) rest

inductive MembersStep (fuel : Nat) : Str → List (Str × Value) → Str → Prop
  | last {text key left after left' rest : Str} {value : Value} :
      scanString (ε := ε) text = .ok (key,left) →
      skipSpace left = 58::after →
      readValue format hook fuel (skipSpace after) = .ok (value,left') →
      skipSpace left' = 125::rest → MembersStep fuel (quote::text) [(key,value)] rest
  | more {text key left after left' again rest : Str} {value : Value}
      {members : List (Str × Value)} :
      scanString (ε := ε) text = .ok (key,left) → skipSpace left = 58::after →
      readValue format hook fuel (skipSpace after) = .ok (value,left') →
      skipSpace left' = 44::again →
      (skipSpace again).head? ≠ some 125 →
      readMembers format hook fuel (skipSpace again) = .ok (members,rest) →
      MembersStep fuel (quote::text) ((key,value)::members) rest

variable {format hook} {fuel : Nat} {text rest : Str}

private theorem cons_head {code : Nat} (opens : text.head? = some code) :
    text = code::text.tail := by
  obtain ⟨more,rfl⟩ := List.head?_eq_some_iff.mp opens
  rfl

theorem readValue_iff {value : Value} : readValue format hook (fuel + 1) text = .ok (value,rest) ↔
    ValueStep format hook fuel text value rest := by
  constructor
  · intro read
    rw [readValue.eq_def] at read
    dsimp only at read
    split at read
    · contradiction
    · rename_i code tail
      split_ifs at read with string list empty object bare
      · rw [string]
        split at read
        · rename_i scanned
          cases read
          exact .string scanned
        · contradiction
      · rw [list]
        cases read
        exact .emptyList (cons_head empty)
      · rw [list]
        split at read
        · rename_i inner
          cases read
          exact .list empty inner
        · contradiction
      · rw [object]
        split at read
        · rename_i hooked
          cases read
          exact .emptyDict (cons_head bare) hooked
        · contradiction
      · rw [object]
        split at read
        · rename_i inner
          split at read
          · rename_i hooked
            cases read
            exact .dict bare inner hooked
          · contradiction
        · contradiction
      · exact .scalar string list object read
  · intro step
    cases step with
    | string scanned =>
      rw [readValue]
      simp [scanned]
    | emptyList closed =>
      rw [readValue]
      simp [closed,quote]
    | list filled inner =>
      rw [readValue]
      simp [filled,inner,quote]
    | emptyDict closed hooked =>
      rw [readValue]
      simp [closed,hooked,quote]
    | dict filled inner hooked =>
      rw [readValue]
      simp [filled,inner,hooked,quote]
    | scalar string list object read =>
      rw [readValue]
      simp [string,list,object,read]

theorem readItems_iff {items : List Value} :
    readItems format hook (fuel + 1) text = .ok (items,rest) ↔
    ItemsStep format hook fuel text items rest := by
  constructor
  · intro read
    rw [readItems] at read
    split at read
    · contradiction
    · rename_i first
      split at read
      · contradiction
      · rename_i shape
        dsimp only at read
        split_ifs at read with closed comma trailing
        · rw [closed] at shape
          cases read
          exact .last first shape
        · rw [comma] at shape
          split at read
          · rename_i inner
            cases read
            exact .more first shape trailing inner
          · contradiction
  · intro step
    cases step with
    | last first closed =>
      rw [readItems,first]
      simp [closed]
    | more first comma filled inner =>
      rw [readItems,first]
      simp [comma,filled,inner]

theorem readMembers_iff {members : List (Str × Value)} :
    readMembers format hook (fuel + 1) text = .ok (members,rest) ↔
    MembersStep format hook fuel text members rest := by
  constructor
  · intro read
    rw [readMembers.eq_def] at read
    dsimp only at read
    split at read
    · contradiction
    · split_ifs at read with quoted
      rw [quoted]
      split at read
      · contradiction
      · rename_i scanned
        split at read
        · contradiction
        · rename_i shape
          split_ifs at read with separated
          rw [separated] at shape
          split at read
          · contradiction
          · rename_i first
            split at read
            · contradiction
            · rename_i shape'
              split_ifs at read with closed comma trailing
              · rw [closed] at shape'
                cases read
                exact .last scanned shape first shape'
              · rw [comma] at shape'
                split at read
                · rename_i inner
                  cases read
                  exact .more scanned shape first shape' trailing inner
                · contradiction
  · intro step
    cases step with
    | last scanned colon first closed =>
      rw [readMembers]
      simp [scanned,colon,first,closed]
    | more scanned colon first comma filled inner =>
      rw [readMembers]
      simp [scanned,colon,first,comma,filled,inner]

end Steps

end QuilrMcp.Library.Json
