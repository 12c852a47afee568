import QuilrMcp.Library.Text

/-! The part of the language that rests on the Unicode tables: normal forms, case, categories,
white space and `repr`. The tables are a parameter; `ascii` is what they say of ASCII text. -/
namespace QuilrMcp.Library.Unicode
open Text

inductive Category
  | cc
  | cf
  | zs
  | zl
  | zp
  | mn
  | other
  deriving DecidableEq

def IsAscii (text : Str) : Prop := ∀ code ∈ text, code < 128

def asciiLower (code : Nat) : Nat := if 65 ≤ code ∧ code ≤ 90 then code + 32 else code

def isAsciiSpace (code : Nat) : Bool := (9 ≤ code && code ≤ 13) || (28 ≤ code && code ≤ 32)

structure Tables where
  nfkc : Str → Str
  nfd : Str → Str
  nfc : Str → Str
  casefold : Str → Str
  lower : Str → Str
  category : Nat → Category
  isSpace : Nat → Bool
  repr : Str → Str
  nfkc_ascii : ∀ text, IsAscii text → nfkc text = text
  casefold_ascii : ∀ text, IsAscii text → casefold text = text.map asciiLower
  isSpace_ascii : ∀ code, code < 128 → isSpace code = isAsciiSpace code

/-- `str.strip()` -/
def Tables.strip (tables : Tables) (text : Str) : Str :=
  ((text.dropWhile tables.isSpace).reverse.dropWhile tables.isSpace).reverse

/-- `str.partition` with a separator of one code point: the text before it and the text after. -/
def partition (separator : Nat) (text : Str) : Str × Str :=
  (text.takeWhile (· ≠ separator),(text.dropWhile (· ≠ separator)).tail)

theorem partition_append {separator : Nat} {front : Str} (absent : separator ∉ front) (back : Str) :
    partition separator (front ++ separator::back) = (front,back) := by
  have before : ∀ code ∈ front, decide (code ≠ separator) = true := by
    intro code member
    apply decide_eq_true
    rintro rfl
    exact absent member
  rw [partition,List.takeWhile_append_of_pos before,List.dropWhile_append_of_pos before]
  simp

/-- `str.split` with a separator of one code point. -/
def split (separator : Nat) : Str → List Str
  | [] => [[]]
  | code::rest =>
    if code = separator then []::split separator rest
    else match split separator rest with
      | [] => [[code]]
      | part::parts => (code::part)::parts

/-- The parts of a text have its codes but the separator, and they are the text again. -/
theorem split_part {separator code : Nat} {text part : Str} (listed : part ∈ split separator text)
    (member : code ∈ part) :
    code ∈ text ∧ code ≠ separator := by
  induction text generalizing part with
  | nil =>
    obtain rfl := List.mem_singleton.mp listed
    contradiction
  | cons first text ih =>
    rw [split] at listed
    split_ifs at listed with here
    · rcases List.mem_cons.mp listed with rfl | later
      · contradiction
      · exact ⟨List.mem_cons_of_mem _ (ih later member).1,(ih later member).2⟩
    · cases parts : split separator text with
      | nil =>
        rw [parts] at listed
        obtain rfl := List.mem_singleton.mp listed
        obtain rfl := List.mem_singleton.mp member
        exact ⟨List.mem_cons_self,here⟩
      | cons next parts' =>
        simp only [parts] at listed ih
        rcases List.mem_cons.mp listed with rfl | later
        · rcases List.mem_cons.mp member with rfl | inside
          · exact ⟨List.mem_cons_self,here⟩
          · exact ⟨List.mem_cons_of_mem _ (ih List.mem_cons_self inside).1,
              (ih List.mem_cons_self inside).2⟩
        · exact ⟨List.mem_cons_of_mem _ (ih (List.mem_cons_of_mem _ later) member).1,
            (ih (List.mem_cons_of_mem _ later) member).2⟩

theorem split_eq (separator : Nat) (text : Str) :
    split separator text = text.splitOn separator := by
  induction text with
  | nil => rfl
  | cons code text ih =>
    rw [split,List.splitOn_cons_eq_if_modifyHead,ih]
    cases parts : text.splitOn separator with
    | nil => exact absurd parts (List.splitOn_ne_nil separator text)
    | cons part parts => simp only [beq_iff_eq,List.modifyHead_cons]

theorem split_append {separator : Nat} {part : Str} (absent : separator ∉ part) (rest : Str) :
    split separator (part ++ separator::rest) = part::split separator rest := by
  induction part with
  | nil => simp [split]
  | cons code part ih =>
    obtain ⟨other,absent⟩ := not_or.mp (mt List.mem_cons.mpr absent)
    rw [List.cons_append,split,if_neg (Ne.symm other),ih absent]

theorem split_ne_nil (separator : Nat) (text : Str) : split separator text ≠ [] := by
  rw [split_eq]
  exact List.splitOn_ne_nil separator text

/-- What is no separator stands at the front of the first part. -/
theorem split_front {separator : Nat} {front : Str} (absent : separator ∉ front) (text : Str) :
    split separator (front ++ text) = (split separator text).modifyHead (front ++ ·) := by
  obtain ⟨part,parts,shape⟩ := List.exists_cons_of_ne_nil (split_ne_nil separator text)
  induction front with
  | nil => rw [List.nil_append,shape,List.modifyHead_cons,List.nil_append]
  | cons code front ih =>
    obtain ⟨other,absent⟩ := not_or.mp (mt List.mem_cons.mpr absent)
    rw [List.cons_append,split,if_neg (Ne.symm other),ih absent,shape]
    rfl

/-- What follows a text goes on with its last part. -/
theorem split_onward (separator : Nat) (text more : Str) : split separator (text ++ more) =
      (split separator text).dropLast ++
        split separator ((split separator text).getLast?.getD [] ++ more) := by
  induction text with
  | nil => rfl
  | cons code text ih =>
    obtain ⟨part,parts,shape⟩ := List.exists_cons_of_ne_nil (split_ne_nil separator text)
    rw [List.cons_append,split,split,ih,shape]
    split_ifs with here
    · rfl
    · cases parts with
      | nil =>
        simp only [List.dropLast_singleton,List.nil_append,List.getLast?_singleton,Option.getD_some,
          List.cons_append]
        rw [split,if_neg here]
      | cons next parts => rfl

theorem mem_strip (tables : Tables) {text : Str} {code : Nat} (member : code ∈ tables.strip text) :
    code ∈ text := by
  apply (List.dropWhile_suffix tables.isSpace).subset
  apply List.mem_reverse.mp
  apply (List.dropWhile_suffix tables.isSpace).subset
  exact List.mem_reverse.mp member

/-- A text whose ends are no white space is stripped of nothing. -/
theorem strip_closed (tables : Tables) {text : Str}
    (front : ∀ code ∈ text.head?, tables.isSpace code = false)
    (back : ∀ code ∈ text.getLast?, tables.isSpace code = false) : tables.strip text = text := by
  have kept (text : Str) (first : ∀ code ∈ text.head?, tables.isSpace code = false) :
      text.dropWhile tables.isSpace = text := by
    cases text with
    | nil => rfl
    | cons code text => rw [List.dropWhile_cons_of_neg (by simp [first code rfl])]
  rw [Tables.strip,kept text front,kept,List.reverse_reverse]
  rw [List.head?_reverse]
  exact back

def isAsciiDigit (code : Nat) : Bool := 48 ≤ code && code ≤ 57

def isAsciiLetter (code : Nat) : Bool := (65 ≤ code && code ≤ 90) || (97 ≤ code && code ≤ 122)

/-- The character classes of patterns, `\w` and `\d`, and `str.isdigit` with `int` of one digit. -/
structure Classes where
  isWord : Nat → Bool
  isDecimal : Nat → Bool
  isDigit : Nat → Bool
  digit : Nat → Nat
  isWord_ascii : ∀ code, code < 128 →
    isWord code = (isAsciiDigit code || isAsciiLetter code || code == 95)
  isDecimal_ascii : ∀ code, code < 128 → isDecimal code = isAsciiDigit code
  isDigit_ascii : ∀ code, code < 128 → isDigit code = isAsciiDigit code
  digit_ascii : ∀ code, isAsciiDigit code = true → digit code = code - 48
  isWord_decimal : ∀ code, isDecimal code = true → isWord code = true
  isDigit_decimal : ∀ code, isDecimal code = true → isDigit code = true

def asciiClasses : Classes where
  isWord code := isAsciiDigit code || isAsciiLetter code || code == 95
  isDecimal := isAsciiDigit
  isDigit := isAsciiDigit
  digit code := code - 48
  isWord_ascii _ _ := rfl
  isDecimal_ascii _ _ := rfl
  isDigit_ascii _ _ := rfl
  digit_ascii _ _ := rfl
  isWord_decimal code decimal := by rw [decimal,Bool.true_or,Bool.true_or]
  isDigit_decimal _ decimal := decimal

def ascii : Tables where
  nfkc := id
  nfd := id
  nfc := id
  casefold := List.map asciiLower
  lower := List.map asciiLower
  category code := if code < 32 ∨ code = 127 then .cc else if code = 32 then .zs else .other
  isSpace := isAsciiSpace
  repr text := 39::text ++ [39]
  nfkc_ascii _ _ := rfl
  casefold_ascii _ _ := rfl
  isSpace_ascii _ _ := rfl

end QuilrMcp.Library.Unicode
