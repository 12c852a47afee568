import QuilrMcp.Library.Text
import Mathlib.Data.Nat.Digits.Defs

/-! JSON values and the two text codecs of the language, `loads` and `dumps`.
A float is kept as the text that it is written with; `FloatFormat` is the part of
the language that turns a numeral into that text. The parser takes the hook that
every object's pairs go through, and reports the first error it meets. -/
namespace QuilrMcp.Library.Json
open Text

inductive Value
  | null
  | bool (value : Bool)
  | int (value : Int)
  | float (text : Str)
  | str (value : Str)
  | list (items : List Value)
  | dict (fields : List (Str × Value))

/-- The last pair with the key wins, as when the pairs become a dictionary. -/
def lookup (key : Str) : List (Str × Value) → Option Value
  | [] => none
  | (name,value)::rest => (lookup key rest).or (if name = key then some value else none)

abbrev quote : Nat := 34
abbrev backslash : Nat := 92

def isSpace (code : Nat) : Bool := code == 32 || code == 9 || code == 10 || code == 13

def skipSpace (text : Str) : Str := text.dropWhile isSpace

def isDigit (code : Nat) : Bool := 48 ≤ code && code ≤ 57

inductive Error (ε : Type)
  | syntaxError (message : String)
  | valueError
  | hook (error : ε)
  | outOfFuel
  deriving DecidableEq

variable {ε : Type}

def hexDigit (code : Nat) : Option Nat :=
  if 48 ≤ code ∧ code ≤ 57 then some (code - 48)
  else if 97 ≤ code ∧ code ≤ 102 then some (code - 87)
  else if 65 ≤ code ∧ code ≤ 70 then some (code - 55)
  else none

def hex4 (a b c d : Nat) : Option Nat := do
  return (← hexDigit a) * 4096 + (← hexDigit b) * 256 + (← hexDigit c) * 16 + (← hexDigit d)

/-- The one-letter escapes. -/
def simpleEscape (code : Nat) : Option Nat :=
  if code = quote then some quote
  else if code = backslash then some backslash
  else if code = 47 then some 47
  else if code = 98 then some 8
  else if code = 102 then some 12
  else if code = 110 then some 10
  else if code = 114 then some 13
  else if code = 116 then some 9
  else none

def consUnit (unit : Bool × Nat) : Except (Error ε) (List (Bool × Nat) × Str) →
    Except (Error ε) (List (Bool × Nat) × Str)
  | .ok (units,rest) => .ok (unit::units,rest)
  | .error error => .error error

/-- The code points of a string up to its closing quote, each with whether a `u` escape spelt it. -/
def scanUnits : Str → Except (Error ε) (List (Bool × Nat) × Str)
  | [] => .error (.syntaxError "Unterminated string starting at")
  | code::rest =>
    if code = quote then .ok ([],rest)
    else if code = backslash then
      match rest with
      | [] => .error (.syntaxError "Unterminated string starting at")
      | letter::rest =>
        if letter = 117 then
          match rest with
          | a::b::c::d::rest =>
            if rest.isEmpty then .error (.syntaxError "Invalid \\uXXXX escape")
            else match hex4 a b c d with
              | some value => consUnit (true,value) (scanUnits rest)
              | none => .error (.syntaxError "Invalid \\uXXXX escape")
          | _ => .error (.syntaxError "Invalid \\uXXXX escape")
        else match simpleEscape letter with
          | some value => consUnit (false,value) (scanUnits rest)
          | none => .error (.syntaxError "Invalid \\escape")
    else if code < 32 then .error (.syntaxError "Invalid control character at")
    else consUnit (false,code) (scanUnits rest)

/-- Two escapes that spell a surrogate pair are one code point; raw surrogates stay as they are. -/
def joinUnits : List (Bool × Nat) → Str
  | [] => []
  | [unit] => [unit.2]
  | first::second::rest =>
    if first.1 && second.1 && isHigh first.2 && isLow second.2 then
      joinPair first.2 second.2::joinUnits rest
    else first.2::joinUnits (second::rest)

def scanString (text : Str) : Except (Error ε) (Str × Str) :=
  match scanUnits text with
  | .ok (units,rest) => .ok (joinUnits units,rest)
  | .error error => .error error

/-- `.` and at least one digit. -/
def scanFraction : Str → Option (Str × Str)
  | point::digit::rest =>
    if point = 46 ∧ isDigit digit = true then
      some (point::digit::rest.takeWhile isDigit,rest.dropWhile isDigit)
    else none
  | _ => none

/-- `e` or `E`, an optional sign and at least one digit. -/
def scanExponent : Str → Option (Str × Str)
  | letter::second::rest =>
    if letter = 101 ∨ letter = 69 then
      if second = 43 ∨ second = 45 then
        if (rest.takeWhile isDigit).isEmpty then none
        else some (letter::second::rest.takeWhile isDigit,rest.dropWhile isDigit)
      else if isDigit second then
        some (letter::second::rest.takeWhile isDigit,rest.dropWhile isDigit)
      else none
    else none
  | _ => none

/-- The integer digits: no leading zero. -/
def scanInteger : Str → Option (Str × Str)
  | [] => none
  | digit::rest =>
    if digit = 48 then some ([48],rest)
    else if isDigit digit then some (digit::rest.takeWhile isDigit,rest.dropWhile isDigit)
    else none

structure Numeral where
  negative : Bool
  digits : Str
  fraction : Str
  exponent : Str

def Numeral.text (numeral : Numeral) : Str :=
  (if numeral.negative then [45] else []) ++ numeral.digits ++ numeral.fraction ++ numeral.exponent

def Numeral.isFloat (numeral : Numeral) : Bool :=
  !(numeral.fraction.isEmpty && numeral.exponent.isEmpty)

def scanNumber (text : Str) : Option (Numeral × Str) :=
  let negative := text.head? == some 45
  match scanInteger (if negative then text.tail else text) with
  | none => none
  | some (digits,rest) =>
    let (fraction,rest) := (scanFraction rest).getD ([],rest)
    let (exponent,rest) := (scanExponent rest).getD ([],rest)
    some (⟨negative,digits,fraction,exponent⟩,rest)

def ofDigits (digits : Str) : Nat := digits.foldl (fun value digit => 10 * value + (digit - 48)) 0

/-- `sys.get_int_max_str_digits()` -/
def intMaxStrDigits : Nat := 4300

def IsFloatText (text : Str) : Prop :=
  ∃ numeral, scanNumber text = some (numeral,[]) ∧ numeral.isFloat = true

/-- How `float` reads a numeral and how the float is written. Reading a written float and
writing it again changes nothing, and a float that is no infinity is written as a numeral. -/
structure FloatFormat where
  text : Str → Str
  settled : ∀ numeral, IsFloatText numeral →
    text numeral = lit "Infinity" ∨ text numeral = lit "-Infinity" ∨
    (IsFloatText (text numeral) ∧ text (text numeral) = text numeral)

/-- Every float is written as the numeral it was read from. -/
def FloatFormat.verbatim : FloatFormat := ⟨id,fun _ known => Or.inr (Or.inr ⟨known,rfl⟩)⟩

section Loads
variable (format : FloatFormat) (hook : List (Str × Value) → Except ε (List (Str × Value)))

def readNumber (text : Str) : Except (Error ε) (Value × Str) :=
  match scanNumber text with
  | none => .error (.syntaxError "Expecting value")
  | some (numeral,rest) =>
    if numeral.isFloat then .ok (.float (format.text numeral.text),rest)
    else if numeral.digits.length > intMaxStrDigits then .error .valueError
    else if numeral.negative then .ok (.int (-(ofDigits numeral.digits)),rest)
    else .ok (.int (ofDigits numeral.digits),rest)

/-- The names of the constants, longest match not needed: no name begins another. -/
def constants : List (Str × Value) :=
  [(lit "null",.null),(lit "true",.bool true),(lit "false",.bool false),
    (lit "NaN",.float (lit "NaN")),
    (lit "Infinity",.float (lit "Infinity")),(lit "-Infinity",.float (lit "-Infinity"))]

def readScalar (text : Str) : Except (Error ε) (Value × Str) :=
  match constants.find? (fun constant => constant.1.isPrefixOf text) with
  | some (name,value) => .ok (value,text.drop name.length)
  | none => readNumber format text

mutual
def readValue : Nat → Str → Except (Error ε) (Value × Str)
  | 0, _ => .error .outOfFuel
  | fuel+1, text =>
    match text with
    | [] => .error (.syntaxError "Expecting value")
    | code::rest =>
      if code = quote then
        match scanString rest with
        | .ok (value,rest) => .ok (.str value,rest)
        | .error error => .error error
      else if code = 91 then
        let rest := skipSpace rest
        if rest.head? = some 93 then .ok (.list [],rest.tail)
        else match readItems fuel rest with
          | .ok (items,rest) => .ok (.list items,rest)
          | .error error => .error error
      else if code = 123 then
        let rest := skipSpace rest
        if rest.head? = some 125 then
          match hook [] with
          | .ok fields => .ok (.dict fields,rest.tail)
          | .error error => .error (.hook error)
        else match readMembers fuel rest with
          | .ok (members,rest) =>
            match hook members with
            | .ok fields => .ok (.dict fields,rest)
            | .error error => .error (.hook error)
          | .error error => .error error
      else readScalar format text
/-- The items of a list from its first on, through the closing bracket. -/
def readItems : Nat → Str → Except (Error ε) (List Value × Str)
  | 0, _ => .error .outOfFuel
  | fuel+1, text =>
    match readValue fuel text with
    | .error error => .error error
    | .ok (item,rest) =>
      match skipSpace rest with
      | [] => .error (.syntaxError "Expecting ',' delimiter")
      | code::rest =>
        if code = 93 then .ok ([item],rest)
        else if code = 44 then
          let rest := skipSpace rest
          if rest.head? = some 93 then
            .error (.syntaxError "Illegal trailing comma before end of array")
          else match readItems fuel rest with
            | .ok (items,rest) => .ok (item::items,rest)
            | .error error => .error error
        else .error (.syntaxError "Expecting ',' delimiter")
/-- The members of an object from its first on, through the closing brace. -/
def readMembers : Nat → Str → Except (Error ε) (List (Str × Value) × Str)
  | 0, _ => .error .outOfFuel
  | fuel+1, text =>
    match text with
    | [] => .error (.syntaxError "Expecting property name enclosed in double quotes")
    | code::rest =>
      if code = quote then
        match scanString rest with
        | .error error => .error error
        | .ok (key,rest) =>
          match skipSpace rest with
          | [] => .error (.syntaxError "Expecting ':' delimiter")
          | colon::rest =>
            if colon = 58 then
              match readValue fuel (skipSpace rest) with
              | .error error => .error error
              | .ok (value,rest) =>
                match skipSpace rest with
                | [] => .error (.syntaxError "Expecting ',' delimiter")
                | code::rest =>
                  if code = 125 then .ok ([(key,value)],rest)
                  else if code = 44 then
                    let rest := skipSpace rest
                    if rest.head? = some 125 then
                      .error (.syntaxError "Illegal trailing comma before end of object")
                    else match readMembers fuel rest with
                      | .ok (members,rest) => .ok ((key,value)::members,rest)
                      | .error error => .error error
                  else .error (.syntaxError "Expecting ',' delimiter")
            else .error (.syntaxError "Expecting ':' delimiter")
      else .error (.syntaxError "Expecting property name enclosed in double quotes")
end

/-- The whole text must be one value. Twice its length is fuel enough: a call that does not
go past a code point is followed by one that does. -/
def decode (text : Str) : Except (Error ε) Value :=
  match readValue format hook (2 * text.length + 2) (skipSpace text) with
  | .error error => .error error
  | .ok (value,rest) => if (skipSpace rest).isEmpty then .ok value
      else .error (.syntaxError "Extra data")

/-- `json.loads` of a string. Octets are decoded, and their text is not looked at for a byte order mark. -/
def loads (text : Str) : Except (Error ε) Value :=
  if text.head? = some 0xFEFF then
    .error (.syntaxError "Unexpected UTF-8 BOM (decode using utf-8-sig)")
  else decode format hook text

theorem decode_cases (text : Str) : decode format hook text = loads format hook text ∨
    text.head? = some 0xFEFF ∧ decode format hook text = .error (.syntaxError "Expecting value") ∧
      ∃ message, loads format hook text = .error (.syntaxError message) := by
  unfold loads
  split_ifs with marked
  · obtain ⟨rest,rfl⟩ := List.head?_eq_some_iff.mp marked
    have marks : skipSpace (0xFEFF::rest) = 0xFEFF::rest := rfl
    refine Or.inr ⟨rfl,?_,_,rfl⟩
    rw [decode,marks]
    rfl
  · exact Or.inl rfl

theorem decode_ok_iff {text : Str} {value : Value} :
    decode format hook text = .ok value ↔ loads format hook text = .ok value := by
  rcases decode_cases format hook text with same | ⟨-,failed,_,failed'⟩
  · rw [same]
  · rw [failed,failed']
    exact iff_of_false nofun nofun

end Loads

/-- The separators are the default ones or the compact ones. -/
structure Style where
  spaced : Bool := true
  ensureAscii : Bool := true

def Style.itemSeparator (style : Style) : Str := if style.spaced then [44,32] else [44]
def Style.keySeparator (style : Style) : Str := if style.spaced then [58,32] else [58]

def hexCode (value : Nat) : Nat := if value < 10 then 48 + value else 87 + value

def unicodeEscape (code : Nat) : Str :=
  [backslash,117,hexCode (code / 4096 % 16),hexCode (code / 256 % 16),hexCode (code / 16 % 16),
    hexCode (code % 16)]

def escapeCode (ensureAscii : Bool) (code : Nat) : Str :=
  if code = quote then [backslash,quote]
  else if code = backslash then [backslash,backslash]
  else if code = 10 then [backslash,110]
  else if code = 13 then [backslash,114]
  else if code = 9 then [backslash,116]
  else if code = 8 then [backslash,98]
  else if code = 12 then [backslash,102]
  else if code < 32 then unicodeEscape code
  else if ensureAscii && 127 ≤ code then
    if 0x10000 ≤ code then
      unicodeEscape (0xD800 + (code - 0x10000) / 0x400 % 0x400) ++
        unicodeEscape (0xDC00 + (code - 0x10000) % 0x400)
    else unicodeEscape code
  else [code]

def writeString (style : Style) (text : Str) : Str :=
  quote::text.flatMap (escapeCode style.ensureAscii) ++ [quote]

def natText (value : Nat) : Str :=
  if value = 0 then [48] else (Nat.digits 10 value).reverse.map (48 + ·)

def intText (value : Int) : Str := (if value < 0 then [45] else []) ++ natText value.natAbs

mutual
def dumps (style : Style) : Value → Str
  | .null => lit "null"
  | .bool true => lit "true"
  | .bool false => lit "false"
  | .int value => intText value
  | .float text => text
  | .str value => writeString style value
  | .list items => 91::dumpItems style items ++ [93]
  | .dict fields => 123::dumpFields style fields ++ [125]
def dumpItems (style : Style) : List Value → Str
  | [] => []
  | [item] => dumps style item
  | item::next::items => dumps style item ++ style.itemSeparator ++ dumpItems style (next::items)
def dumpFields (style : Style) : List (Str × Value) → Str
  | [] => []
  | [(key,value)] => writeString style key ++ style.keySeparator ++ dumps style value
  | (key,value)::next::fields =>
    writeString style key ++ style.keySeparator ++ dumps style value ++ style.itemSeparator ++
      dumpFields style (next::fields)
end

/-- A float that equals zero. -/
def isZeroFloat (text : Str) : Bool := text == lit "0.0" || text == lit "-0.0"

def truthy : Value → Bool
  | .null => false
  | .bool value => value
  | .int value => value != 0
  | .float text => !isZeroFloat text
  | .str text => !text.isEmpty
  | .list items => !items.isEmpty
  | .dict fields => !fields.isEmpty

end QuilrMcp.Library.Json
