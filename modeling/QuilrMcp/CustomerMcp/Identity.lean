import QuilrMcp.CustomerMcp.RefundMoney
import QuilrMcp.CustomerMcp.Schemas
import QuilrMcp.Library.Utf8

/-! Operation keys: which requests are one operation. -/
namespace QuilrMcp.CustomerMcp.Identity
open Library Library.Text
open Unicode (Classes Tables)
open Schemas

/-- The text that is digested. -/
def material (operation : Operation) : Str :=
  Json.dumps ⟨true,false⟩ (.dict [(lit "amount",.str (amountText operation.amount)),
    (lit "customer_id",.str operation.customerId),(lit "reason",.str operation.reason)])

theorem fingerprint_material (platform : Platform) (operation : Operation) :
    fingerprint platform operation.customerId operation.amount operation.reason =
      (encode (material operation)).map platform.sha256Hex := rfl

theorem amountText_injective {first second : Int} (positive : 0 < first) (positive' : 0 < second)
    (same : amountText first = amountText second) : first = second := by
  rw [amountText,amountText,if_neg (not_lt.mpr positive.le),
    if_neg (not_lt.mpr positive'.le)] at same
  simp only [List.nil_append] at same
  obtain ⟨units,cents⟩ := List.append_inj' same rfl
  have whole := Json.natText_injective units
  simp only [List.cons.injEq,true_and,and_true] at cents
  omega

private def readMaterial (text : Str) : Except (Json.Error Unit) Json.Value :=
  Json.loads .verbatim (fun pairs => .ok pairs) text

private theorem amountText_small {cents : Int} (positive : 0 < cents) :
    ∀ code ∈ amountText cents, code < 128 :=
  fun code member =>
    (Json.floatText_printed _ (RefundMoney.amountText_float positive.le) code member).2

private theorem readMaterial_material {operation : Operation} (valid : Valid operation) :
    readMaterial (material operation) =
      .ok (.dict [(lit "amount",.str (amountText operation.amount)),
      (lit "customer_id",.str operation.customerId),(lit "reason",.str operation.reason)]) := by
  have sound : Json.Sound .verbatim (.dict [(lit "amount",.str (amountText operation.amount)),
      (lit "customer_id",.str operation.customerId),(lit "reason",.str operation.reason)]) := by
    refine ⟨by decide,?_,by decide,?_,by decide,?_,trivial⟩
    · exact fun code member => Nat.lt_trans (amountText_small valid.amount code member) (by decide)
    · exact fun code member => (valid.customerId.2 code member).1
    · exact fun code member => (valid.reason code member).1
  rw [readMaterial,material,Json.loads_dumps _ _ _ _ sound]
  simp [Json.rebuild,Json.rebuildFields,Json.readBack,Except.map]

/-- The material of a request shows its customer, amount and reason. -/
theorem material_injective {first second : Operation} (valid : Valid first) (valid' : Valid second)
    (same : material first = material second) :
    first.customerId = second.customerId ∧ first.amount = second.amount ∧
    first.reason = second.reason := by
  have read := readMaterial_material valid
  rw [same,readMaterial_material valid'] at read
  simp only [Except.ok.injEq,Json.Value.dict.injEq,List.cons.injEq,Prod.mk.injEq,
    Json.Value.str.injEq,true_and,and_true] at read
  exact ⟨read.2.1.symm,(amountText_injective valid'.amount valid.amount read.1).symm,read.2.2.symm⟩

private theorem material_range {operation : Operation} (valid : Valid operation) :
    ∀ code ∈ material operation, code < 0x110000 := by
  apply Json.dumps_dict_range ⟨true,false⟩ rfl
  simp only [List.forall_mem_cons,Json.dumps]
  refine ⟨⟨by decide,?_⟩,⟨by decide,?_⟩,⟨by decide,?_⟩,List.forall_mem_nil _⟩
  · apply Json.writeString_range _ rfl
    exact fun code member => Nat.lt_trans (amountText_small valid.amount code member) (by decide)
  · apply Json.writeString_range _ rfl
    exact fun code member => (valid.customerId.2 code member).1
  · apply Json.writeString_range _ rfl
    exact fun code member => (valid.reason code member).1

theorem encoded_injective {first second : Operation} (valid : Valid first) (valid' : Valid second)
    {bytes : Bytes} (encoded : Encoding.encodeUtf8 (material first) = some bytes)
    (encoded' : Encoding.encodeUtf8 (material second) = some bytes) :
    material first = material second := by
  rw [← Utf8.decode_encode (material_range valid) encoded,
    Utf8.decode_encode (material_range valid') encoded']

/-- One operation: the same customer's request under the same supplied key, or without a key the same
customer, amount and reason. -/
def SameOperation (first second : Operation) : Prop :=
  (∃ supplied, first.idempotencyKey = some supplied ∧ second.idempotencyKey = some supplied ∧
    first.customerId = second.customerId) ∨
  (first.idempotencyKey = none ∧ second.idempotencyKey = none ∧
    first.customerId = second.customerId ∧
    first.amount = second.amount ∧ first.reason = second.reason)

/-- The digest is injective on the material of two requests. -/
def TellsApart (platform : Platform) (first second : Operation) : Prop :=
  ∀ bytes bytes', Encoding.encodeUtf8 (material first) = some bytes →
  Encoding.encodeUtf8 (material second) = some bytes' →
    platform.sha256Hex bytes = platform.sha256Hex bytes' → bytes = bytes'

theorem operationKey_cases (platform : Platform) {operation : Operation} (valid : Valid operation) :
    (∃ supplied, operation.idempotencyKey = some supplied ∧
      operationKey platform operation = .ok (lit "key:" ++ operation.customerId ++
        lit ":" ++ supplied)) ∨
    (operation.idempotencyKey = none ∧
      ∃ bytes, Encoding.encodeUtf8 (material operation) = some bytes ∧
      operationKey platform operation = .ok (lit "auto:" ++ platform.sha256Hex bytes)) := by
  cases given : operation.idempotencyKey with
  | some supplied =>
    have usable : supplied.isEmpty = false := by simpa using valid.idempotencyKey supplied given
    exact Or.inl ⟨supplied,rfl,by simp [operationKey,given,usable]⟩
  | none =>
    refine Or.inr ⟨rfl,?_⟩
    obtain ⟨print,printed⟩ :=
      (RefundMoney.fingerprint_iff platform operation.customerId operation.reason
        valid.amount.le).mpr
      ⟨fun code member => (valid.customerId.2 code member).2,fun code member =>
        (valid.reason code member).2⟩
    rw [fingerprint_material] at printed
    cases encoded : Encoding.encodeUtf8 (material operation) with
    | none => simp [encode,encoded,Except.map] at printed
    | some bytes =>
      refine ⟨bytes,rfl,?_⟩
      simp only [operationKey,given,fingerprint_material,encode,encoded,Except.map]

/-- The prefixes and the length of a customer id take a key apart. -/
private theorem supplied_injective {customerId customerId' supplied supplied' : Str}
    (length : customerId.length = customerId'.length)
    (same : lit "key:" ++ customerId ++ lit ":" ++ supplied = lit "key:" ++ customerId' ++
      lit ":" ++ supplied') :
    customerId = customerId' ∧ supplied = supplied' := by
  simp only [List.append_assoc] at same
  obtain ⟨customer,rest⟩ := List.append_inj (List.append_cancel_left same) length
  exact ⟨customer,List.append_cancel_left rest⟩

private theorem prefixes_apart (rest rest' : Str) : lit "key:" ++ rest ≠ lit "auto:" ++ rest' := by
  intro same
  have first := congrArg List.head? same
  simp [lit] at first

/-- Validated requests have one key exactly when they are one operation. -/
theorem operation_key_exact (tables : Tables) (classes : Classes) (platform : Platform)
    {arguments arguments' : Arguments} {first second : Operation}
    (validated : validate tables classes arguments = .ok first)
    (validated' : validate tables classes arguments' = .ok second)
    (tells : TellsApart platform first second) :
    ∃ key key', operationKey platform first = .ok key ∧ operationKey platform second = .ok key' ∧
      (key = key' ↔ SameOperation first second) := by
  have valid := validate_valid tables classes validated
  have valid' := validate_valid tables classes validated'
  rcases operationKey_cases platform valid with ⟨supplied,given,keyed⟩ | ⟨given,bytes,encoded,keyed⟩
  · rcases operationKey_cases platform valid' with ⟨supplied',given',keyed'⟩ | ⟨given',bytes',
      encoded',keyed'⟩
    · refine ⟨_,_,keyed,keyed',?_⟩
      have length : first.customerId.length = second.customerId.length :=
        valid.customerId.1.trans valid'.customerId.1.symm
      constructor
      · intro same
        obtain ⟨customer,rfl⟩ := supplied_injective length same
        exact Or.inl ⟨supplied,given,given',customer⟩
      · rintro (⟨other,known,known',customer⟩ | ⟨none_,_⟩)
        · rw [given] at known
          rw [given'] at known'
          rw [customer,Option.some.inj known,Option.some.inj known']
        · rw [given] at none_
          contradiction
    · refine ⟨_,_,keyed,keyed',?_⟩
      apply iff_of_false
      · simp only [List.append_assoc]
        exact prefixes_apart _ _
      · rintro (⟨other,_,known',_⟩ | ⟨none_,_⟩)
        · rw [given'] at known'
          contradiction
        · rw [given] at none_
          contradiction
  · rcases operationKey_cases platform valid' with ⟨supplied',given',keyed'⟩ | ⟨given',bytes',
      encoded',keyed'⟩
    · refine ⟨_,_,keyed,keyed',?_⟩
      apply iff_of_false
      · simp only [List.append_assoc]
        exact (prefixes_apart _ _).symm
      · rintro (⟨other,known,_,_⟩ | ⟨_,none_,_⟩)
        · rw [given] at known
          contradiction
        · rw [given'] at none_
          contradiction
    · refine ⟨_,_,keyed,keyed',?_⟩
      constructor
      · intro same
        obtain rfl := tells bytes bytes' encoded encoded' (List.append_cancel_left same)
        have operation :=
          material_injective valid valid' (encoded_injective valid valid' encoded encoded')
        exact Or.inr ⟨given,given',operation⟩
      · rintro (⟨other,known,_,_⟩ | ⟨_,_,customer,amount,reason⟩)
        · rw [given] at known
          contradiction
        · have one : material first = material second := by
            rw [material,material,customer,amount,reason]
          rw [one,encoded'] at encoded
          rw [Option.some.inj encoded]

def refundOf (cents : Int) : Operation := ⟨lit "CUST-00042",cents,lit "Duplicate charge",none⟩

/-- The digests of the refunds of 49.99 and of 10.00. -/
def twoDigests : Platform where
  sha256Hex bytes :=
    if bytes = material (refundOf 4999) then
      lit "a2961fd0ca22ab3f978d75f4b064c8a0e01b46d0a78498e1bdb0be8ed969f0ad"
    else lit "40ac42302414a4fe434e2cbad2698a29cb5c1d6dba46c5973827a02fa536b1d7"
  hexText := by
    intro bytes
    split_ifs <;> decide
  format := .verbatim

def argumentsOf (amount : ℚ) : Arguments :=
  ⟨lit "CUST-00042",amount,lit " Duplicate charge",none,by decide⟩

theorem argumentsOf_validated {amount : ℚ} {cents : Int} (whole : amountField amount = .ok cents) :
    validate Unicode.ascii Unicode.asciiClasses (argumentsOf amount) = .ok (refundOf cents) := by
  have customer : customerIdField Unicode.asciiClasses (lit "CUST-00042") =
    .ok (lit "CUST-00042") := by decide
  have reason : reasonField Unicode.ascii (lit " Duplicate charge") =
    .ok (lit "Duplicate charge") := by decide
  simp only [validate,argumentsOf,customer,whole,reason,idempotencyKeyField,refundOf]

theorem operation_key_exact_amounts :
    ∃ key key', operationKey twoDigests (refundOf 4999) = .ok key ∧
    operationKey twoDigests (refundOf 1000) = .ok key' ∧
    (key = key' ↔ SameOperation (refundOf 4999) (refundOf 1000)) := by
  apply operation_key_exact Unicode.ascii Unicode.asciiClasses twoDigests
    (@argumentsOf_validated (4999 / 100) 4999 (by decide +kernel))
    (@argumentsOf_validated 10 1000 (by decide +kernel))
  intro bytes bytes' encoded encoded' same
  have own : bytes = material (refundOf 4999) := by
    have ascii : Encoding.encodeUtf8 (material (refundOf 4999)) =
      some (material (refundOf 4999)) := by decide +kernel
    exact Option.some.inj (encoded.symm.trans ascii)
  have other : bytes' ≠ material (refundOf 4999) := by
    have ascii : Encoding.encodeUtf8 (material (refundOf 1000)) =
      some (material (refundOf 1000)) := by decide +kernel
    rw [Option.some.inj (encoded'.symm.trans ascii)]
    decide +kernel
  simp only [twoDigests,own,if_true,if_neg other] at same
  exact absurd same (by decide)

end QuilrMcp.CustomerMcp.Identity
