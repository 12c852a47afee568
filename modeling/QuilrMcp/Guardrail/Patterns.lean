import QuilrMcp.Library.Scan
import QuilrMcp.Library.Unicode

/-! The detectors of `patterns.py`: their expressions, length bounds and the Luhn validator. -/
namespace QuilrMcp.Guardrail.Patterns
open Library.Text
open Library.Search
open Library.Unicode (Classes isAsciiDigit isAsciiLetter)

def redactionPlaceholder : Str := lit "[REDACTED]"

/-- One digit's share of the checksum; `doubled` says whether its index has the parity of the length. -/
def luhnShare (doubled : Bool) (digit : Nat) : Nat :=
  if doubled then if 9 < digit * 2 then digit * 2 - 9 else digit * 2 else digit

def luhnChecksum (parity : Nat) : Nat → List Nat → Nat
  | _, [] => 0
  | index, digit::rest => luhnShare (index % 2 == parity) digit +
      luhnChecksum parity (index + 1) rest

def luhnValid (classes : Classes) (digits : Str) : Bool :=
  let numbers := (digits.filter classes.isDigit).map classes.digit
  if numbers.length < 13 then false else luhnChecksum (numbers.length % 2) 0 numbers % 10 == 0

structure Pattern where
  name : Str
  expression : Regex
  maxLength : Nat
  validate : Option (Str → Bool)
  validateMinLength : Nat

def Pattern.accepts (pattern : Pattern) (text : Str) : Bool :=
  match pattern.validate with
  | none => true
  | some validate => validate text

section Expressions
variable (classes : Classes)

/-- `[\w.%+-]` -/
def localPart (code : Nat) : Bool := classes.isWord code || (lit ".%+-").contains code

/-- `[\w.-]` -/
def domainPart (code : Nat) : Bool := classes.isWord code || (lit ".-").contains code

/-- `[^\W\d_]` -/
def letter (code : Nat) : Bool := classes.isWord code && !classes.isDecimal code && code != 95

/-- `[A-Za-z0-9]` -/
def alphanumeric (code : Nat) : Bool := isAsciiDigit code || isAsciiLetter code

/-- `[A-Za-z0-9_-]` -/
def keyPart (code : Nat) : Bool := alphanumeric code || (lit "_-").contains code

/-- `[0-9A-Z]` -/
def upperOrDigit (code : Nat) : Bool := isAsciiDigit code || (65 ≤ code && code ≤ 90)

def digit : Regex := .char classes.isDecimal

def digits (count : Nat) : Regex := .rep (digit classes) count 0

def oneOf (codes : String) : Regex := .char ((lit codes).contains ·)

def maybe (body : Regex) : Regex := .rep body 0 1

def emailExpression : Regex := .sequence
  [.notBehind (localPart classes),.many (localPart classes) 1,.literal (lit "@"),
    .many (domainPart classes) 1,.literal (lit "."),.many (letter classes) 2]

def email : Pattern where
  name := lit "email"
  expression := emailExpression classes
  maxLength := 320
  validate := none
  validateMinLength := 0

def ssnExpression : Regex := .sequence
  [.notAhead (.alt (.literal (lit "000")) (.alt (.literal (lit "666")) (.seq (.literal (lit "9"))
    (digits classes 2)))),
    digits classes 3,.literal (lit "-"),.notAhead (.literal (lit "00")),digits classes 2,
    .literal (lit "-"),.notAhead (.literal (lit "0000")),digits classes 4]

def ssn : Pattern where
  name := lit "ssn"
  expression := ssnExpression classes
  maxLength := 11
  validate := none
  validateMinLength := 0

def creditCardExpression : Regex := .sequence
  [.notBehind classes.isDecimal,.rep (.seq (digit classes) (maybe (oneOf " -"))) 12 6,digit classes,
    .notAhead (digit classes)]

def creditCard : Pattern where
  name := lit "credit_card"
  expression := creditCardExpression classes
  maxLength := 37
  validate := some (luhnValid classes)
  validateMinLength := 13

def phoneArea : Regex := .sequence [.literal (lit "("),digits classes 3,.literal (lit ")")]

/-- What follows the area code when it needs no separator. -/
def phoneRest : Regex :=
  .sequence [maybe (oneOf " .-"),digits classes 3,maybe (oneOf " .-"),digits classes 4]

def phoneExpression : Regex := .sequence
  [.notBehind (fun code => classes.isWord code || code == 45),
    .alt (.sequence [.literal (lit "+1"),maybe (oneOf " .-"),
      .alt (phoneArea classes) (digits classes 3),phoneRest classes])
      (.alt (.sequence [phoneArea classes,phoneRest classes])
        (.sequence [digits classes 3,oneOf " .-",digits classes 3,maybe (oneOf " .-"),
          digits classes 4])),
    .notAhead (digit classes)]

def phone : Pattern where
  name := lit "phone"
  expression := phoneExpression classes
  maxLength := 20
  validate := none
  validateMinLength := 0

def apiKeyExpression : Regex := .sequence
  [.notBehind alphanumeric,
    .alt (.sequence [.literal (lit "sk-ant-"),.many keyPart 16])
      (.alt (.sequence [.literal (lit "sk-"),.many alphanumeric 20])
        (.sequence [.literal (lit "AKIA"),.rep (.char upperOrDigit) 16 0])),
    .notAhead (.char alphanumeric)]

def apiKey : Pattern where
  name := lit "api_key"
  expression := apiKeyExpression
  maxLength := 128
  validate := none
  validateMinLength := 0

def defaultPatterns : List Pattern :=
  [email classes,ssn classes,creditCard classes,phone classes,apiKey]

/-- `[\w.%+@-]+` -/
def overlongRun : Regex := .many (fun code => classes.isWord code || (lit ".%+@-").contains code) 1

/-- The placeholder has no digit and no separator, so nothing that is made of these meets it. -/
theorem placeholder_plain : ∀ code ∈ redactionPlaceholder, classes.isDecimal code = false ∧
    code ≠ 32 ∧ code ≠ 45 := by
  have plain : ∀ code ∈ redactionPlaceholder, code < 128 ∧ isAsciiDigit code = false ∧ code ≠ 32 ∧
    code ≠ 45 := by decide
  intro code member
  obtain ⟨ascii,other,apart⟩ := plain code member
  exact ⟨(classes.isDecimal_ascii code ascii).trans other,apart⟩

theorem placeholder_filled : redactionPlaceholder ≠ [] := by decide

end Expressions

end QuilrMcp.Guardrail.Patterns
