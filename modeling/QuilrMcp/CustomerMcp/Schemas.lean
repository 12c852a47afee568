import QuilrMcp.CustomerMcp.Ledger
import QuilrMcp.Library.Unicode
import Mathlib.Tactic.Linarith

/-! The input schema of a refund. An amount is the decimal that `str` writes of the number, once the
types that are no number have been refused; a validated one is whole cents. -/
namespace QuilrMcp.CustomerMcp.Schemas
open Library Library.Text
open Unicode (Category Classes Tables)

def maxRefundAmount : ℚ := 100000
def minReasonLength : Nat := 10
def maxReasonLength : Nat := 2000
def maxIdempotencyKeyLength : Nat := 128

/-- `_INVISIBLE_CATEGORIES` -/
def invisibleCategories : List Category := [.cc,.cf,.zs,.zl,.zp]

/-- What is wrong with a field. All but the last are found by the declared constraints; a string with a
lone surrogate is no Unicode text. -/
inductive Problem
  | notUnicode
  | pattern
  | greaterThan
  | lessThanEqual
  | tooLong
  | valueError (message : Str)
  deriving DecidableEq

structure FieldError where
  field : Str
  problem : Problem
  deriving DecidableEq

/-- The arguments of a call, which are texts and a finite number. -/
structure Arguments where
  customerId : Str
  amount : ℚ
  reason : Str
  idempotencyKey : Option Str := none
  characters : ∀ code ∈ customerId ++ reason ++ idempotencyKey.getD [], code < 0x110000

section Fields
variable (tables : Tables) (classes : Classes)

def visibleLength (value : Str) : Nat :=
  value.countP (fun code => !invisibleCategories.contains (tables.category code))

/-- A declared string, with its length bounded. -/
def boundedText (maxLength : Nat) (value : Str) : Except Problem Str :=
  if value.any isSurrogate then .error .notUnicode
  else if maxLength < value.length then .error .tooLong else .ok value

/-- `CUSTOMER_ID_PATTERN` -/
def matchesCustomerId (value : Str) : Bool :=
  (lit "CUST-").isPrefixOf value && value.length == 10 && (value.drop 5).all classes.isDecimal

def customerIdField (value : Str) : Except Problem Str :=
  if value.any isSurrogate then .error .notUnicode
  else if matchesCustomerId classes value then .ok value else .error .pattern

def twoDecimals (value : ℚ) : Except Problem Int :=
  if (value * 100).den = 1 then .ok (value * 100).num
  else .error (.valueError (lit "must have at most 2 decimal places (currency precision)"))

def amountField (value : ℚ) : Except Problem Int :=
  if value ≤ 0 then .error .greaterThan
  else if maxRefundAmount < value then .error .lessThanEqual
  else twoDecimals value

def meaningfulReason (value : Str) : Except Problem Str :=
  let stripped := tables.strip value
  let visible := visibleLength tables stripped
  if visible < minReasonLength then
    .error (.valueError (lit "must be at least 10 visible characters (got " ++
      Json.natText visible ++
      lit "; whitespace, control and zero-width characters do not count)"))
  else .ok stripped

def usableIdempotencyKey (value : Str) : Except Problem Str :=
  if visibleLength tables (tables.strip value) = 0 then
    .error (.valueError (lit "must contain at least one visible character when provided"))
  else .ok (tables.strip value)

def reasonField (value : Str) : Except Problem Str :=
  (boundedText maxReasonLength value).bind (meaningfulReason tables)

def idempotencyKeyField : Option Str → Except Problem (Option Str)
  | none => .ok none
  | some value =>
    ((boundedText maxIdempotencyKeyLength value).bind (usableIdempotencyKey tables)).map some

def errorOf {α : Type} (field : Str) : Except Problem α → List FieldError
  | .ok _ => []
  | .error problem => [⟨field,problem⟩]

/-- `TriggerRefundInput`: every field is checked, and all that is wrong is reported in their order. -/
def validate (arguments : Arguments) : Except (List FieldError) Operation :=
  let customerId := customerIdField classes arguments.customerId
  let amount := amountField arguments.amount
  let reason := reasonField tables arguments.reason
  let idempotencyKey := idempotencyKeyField tables arguments.idempotencyKey
  match customerId, amount, reason, idempotencyKey with
  | .ok customerId, .ok amount, .ok reason, .ok idempotencyKey =>
    .ok ⟨customerId,amount,reason,idempotencyKey⟩
  | _, _, _, _ => .error (errorOf (lit "customer_id") customerId ++ errorOf (lit "amount") amount ++
      errorOf (lit "reason") reason ++ errorOf (lit "idempotency_key") idempotencyKey)

theorem validate_ok {arguments : Arguments} {operation : Operation}
    (valid : validate tables classes arguments = .ok operation) :
    customerIdField classes arguments.customerId = .ok operation.customerId ∧
      amountField arguments.amount = .ok operation.amount ∧
      reasonField tables arguments.reason = .ok operation.reason ∧
      idempotencyKeyField tables arguments.idempotencyKey = .ok operation.idempotencyKey := by
  simp only [validate] at valid
  split at valid
  · rename_i customerId amount reason idempotencyKey
    cases valid
    exact ⟨customerId,amount,reason,idempotencyKey⟩
  · contradiction

/-- Text that can be encoded. -/
def Plain (text : Str) : Prop := ∀ code ∈ text, code < 0x110000 ∧ isSurrogate code = false

/-- What every validated request is. -/
structure Valid (operation : Operation) : Prop where
  customerId : operation.customerId.length = 10 ∧ Plain operation.customerId
  amount : 0 < operation.amount
  reason : Plain operation.reason
  idempotencyKey : ∀ supplied, operation.idempotencyKey = some supplied → supplied ≠ []

private theorem boundedText_plain {maxLength : Nat} {value result : Str}
    (checked : boundedText maxLength value = .ok result) :
    result = value ∧ ∀ code ∈ value, isSurrogate code = false := by
  unfold boundedText at checked
  split_ifs at checked with surrogate long
  cases checked
  exact ⟨rfl,by simpa using surrogate⟩

private theorem amountField_pos {value : ℚ} {cents : Int}
    (checked : amountField value = .ok cents) : 0 < cents := by
  unfold amountField twoDecimals at checked
  split_ifs at checked with low high whole
  cases checked
  apply Rat.num_pos.mpr
  linarith [not_le.mp low]

theorem validate_valid {arguments : Arguments} {operation : Operation}
    (valid : validate tables classes arguments = .ok operation) :
    Valid operation := by
  obtain ⟨customerId,amount,reason,idempotencyKey⟩ := validate_ok tables classes valid
  have small (code : Nat) (member : code ∈ arguments.customerId ++ arguments.reason) :
    code < 0x110000 :=
    arguments.characters code (List.mem_append_left _ member)
  refine ⟨?_,amountField_pos amount,?_,?_⟩
  · unfold customerIdField at customerId
    split_ifs at customerId with surrogate matched
    rw [← Except.ok.inj customerId]
    simp only [matchesCustomerId,Bool.and_eq_true,beq_iff_eq] at matched
    have plain : ∀ code ∈ arguments.customerId, isSurrogate code = false := by simpa using surrogate
    exact ⟨matched.1.2,fun code member => ⟨small code (List.mem_append_left _ member),
      plain code member⟩⟩
  · unfold reasonField at reason
    cases bounded : boundedText maxReasonLength arguments.reason with
    | error problem => simp [bounded,Except.bind] at reason
    | ok value =>
      obtain ⟨rfl,plain⟩ := boundedText_plain bounded
      simp only [bounded,Except.bind,meaningfulReason] at reason
      split_ifs at reason with short
      rw [← Except.ok.inj reason]
      intro code member
      have inside := Unicode.mem_strip tables member
      exact ⟨small code (List.mem_append_right _ inside),plain code inside⟩
  · intro supplied given empty
    rw [given] at idempotencyKey
    cases key : arguments.idempotencyKey with
    | none => simp [key,idempotencyKeyField] at idempotencyKey
    | some raw =>
      cases bounded : boundedText maxIdempotencyKeyLength raw with
      | error problem =>
        simp [key,idempotencyKeyField,bounded,Except.bind,Except.map] at idempotencyKey
      | ok value =>
        simp only [key,idempotencyKeyField,bounded,Except.bind,
          usableIdempotencyKey] at idempotencyKey
        split_ifs at idempotencyKey with blank
        · contradiction
        · -- A key without a visible character is refused, so none that is accepted is empty.
          apply blank
          rw [Option.some.inj (Except.ok.inj idempotencyKey),empty]
          rfl

end Fields

end QuilrMcp.CustomerMcp.Schemas
