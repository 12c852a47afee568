import QuilrMcp.CustomerMcp.Server

/-! Sessions: calls one after another on a database that works, and restarts, which lose the store and keep
the ledger. What the tools report agrees with what they have answered before. -/
namespace QuilrMcp.CustomerMcp.Session
open Library Library.Text Library.Sqlite
open Library.Json (Value lastWins Plain)
open Library.Trace (answers after)
open Server

variable (platform : Platform) (config : Config)

section Ledger
variable {σ : Type} (operation : Operation) (now : ℚ) (issue : σ → Except Failure Value × σ)
    (records : List Record)
  (state : σ)

/-- How a call ends whose statements do not fail: it raises and keeps no new record, it replays the response of a
record, or it returns what it issued and keeps a record of it. -/
inductive Ends : Except Failure (Value × Bool) → Connection → Prop
  | refused (failure : Failure) (given : (issue state).1 = .error failure) :
      Ends (.error failure) ⟨records,none⟩
  | raised (failure : Failure) (system : failure.isDomain = false) :
      Ends (.error failure) ⟨records,none⟩
  | replayed (key : Str) (record : Record) (payload : Value)
      (found : stored (purge config now records) key = some record)
      (loaded : loadResponse platform record.response = .ok payload) :
      Ends (.ok (payload,true)) ⟨purge config now records,none⟩
  | issued (record : Record) (payload : Value) (given : (issue state).1 = .ok payload)
      (response : record.response = dumpResponse payload) :
      Ends (.ok (payload,false)) ⟨purge config now records ++ [record],none⟩

theorem runOnce_ends : Ends platform config now issue records state
    (runOnce platform config {} operation now issue ⟨records,none⟩ state).1
    (runOnce platform config {} operation now issue ⟨records,none⟩ state).2.1 := by
  rw [runOnce]
  cases keyed : operationKey platform operation with
  | error failure => exact .raised failure (operationKey_error keyed)
  | ok key =>
    simp only [immediate,Connection.beginImmediate,replayOrIssue,
      Connection.deleteExpired,Connection.selectResponse,Connection.write,Connection.rows,
      Option.getD_some]
    cases bound : encode key with
    | error failure => exact .raised failure (encode_error bound)
    | ok bytes =>
      cases found : stored (purge config now records) key with
      | some record =>
        have found' := found
        simp only [stored,purge] at found'
        simp only [found',Option.map_some]
        cases loaded : loadResponse platform record.response with
        | error failure => exact .raised failure (loadResponse_error loaded)
        | ok payload => exact .replayed key record payload found loaded
      | none =>
        have untaken : (purge config now records).any (·.operationKey = key) = false := by
          simpa [stored,List.find?_eq_none] using found
        simp only [stored,purge] at found untaken
        simp only [found,Option.map_none]
        cases issued : issue state with
        | mk result final =>
          cases result with
          | error failure => exact .refused failure (by rw [issued])
          | ok payload =>
            simp only [recordOf]
            cases printed : fingerprint platform operation.customerId operation.amount
              operation.reason with
            | error failure => exact .raised failure (fingerprint_error printed)
            | ok print =>
              simp only [Except.map,Connection.insert]
              cases texts : encode (key ++ operation.customerId ++ print ++
                dumpResponse payload) with
              | error failure => exact .raised failure (encode_error texts)
              | ok bytes =>
                simp only [Connection.rows,Option.getD_some,untaken,Bool.false_eq_true,if_false,
                  Connection.write]
                exact .issued ⟨key,operation.customerId,print,dumpResponse payload,now⟩ payload
                  (by rw [issued]) rfl

end Ledger

/-- The values of a tool's payload. -/
inductive Leaf : Value → Prop
  | text (value : Str) (plain : Schemas.Plain value) : Leaf (.str value)
  | amount (cents : Int) (positive : 0 ≤ cents) : Leaf (money platform cents)
  | flag (value : Bool) : Leaf (.bool value)

variable {platform}

theorem plain_ascii {text : Str} (ascii : ∀ code ∈ text, code < 128) : Schemas.Plain text :=
  fun code member => ⟨Nat.lt_trans (ascii code member) (by decide),
    Json.scalar_small (Nat.lt_trans (ascii code member) (by decide))⟩

theorem plain_append {first second : Str} (left : Schemas.Plain first)
    (right : Schemas.Plain second) : Schemas.Plain (first ++ second) :=
  List.forall_mem_append.mpr ⟨left,right⟩

theorem plain_pairFree {text : Str} (plain : Schemas.Plain text) : PairFree text := by
  rw [← joinSurrogates_eq_iff]
  induction text with
  | nil => rfl
  | cons code rest ih =>
    obtain ⟨first,later⟩ := List.forall_mem_cons.mp plain
    cases rest with
    | nil => rfl
    | cons next rest =>
      have low : isHigh code = false := by
        have scalar := first.2
        simp only [isSurrogate,isHigh,Bool.and_eq_false_iff,decide_eq_false_iff_not] at scalar ⊢
        omega
      rw [joinSurrogates,low,Bool.false_and,ih later]
      rfl

theorem amount_plain (cents : Int) : Schemas.Plain (amountText cents) := by
  apply plain_ascii
  have digits : ∀ code ∈ Json.natText (cents.natAbs / 100), code < 128 := by
    have printed := Json.intText_printed (cents.natAbs / 100 : Nat)
    rw [Json.intText,if_neg (by omega),List.nil_append,Int.natAbs_natCast] at printed
    exact fun code member => (printed code member).2
  rw [amountText,List.forall_mem_append,List.forall_mem_append]
  refine ⟨⟨?_,digits⟩,?_⟩
  · split_ifs
    · decide
    · exact List.forall_mem_nil _
  · simp only [List.forall_mem_cons,List.not_mem_nil,false_imp_iff,implies_true,and_true]
    omega

theorem leaf_plain {value : Value} (leaf : Leaf platform value) :
    Plain lastWins platform.format value := by
  cases leaf with
  | text value plain =>
    exact ⟨fun code member => (plain code member).1,trivial,plain_pairFree plain⟩
  | flag value => exact ⟨trivial,trivial,trivial⟩
  | amount cents positive =>
    refine ⟨?_,trivial,trivial⟩
    rcases platform.format.settled _
      (RefundMoney.amountText_float positive) with infinite | infinite | known
    · exact Or.inr (Or.inl infinite)
    · exact Or.inr (Or.inr (Or.inl infinite))
    · exact Or.inr (Or.inr (Or.inr known))

/-- Fields of distinct names. -/
structure Good (platform : Platform) (payload : Payload) : Prop where
  distinct : (payload.map Prod.fst).Nodup
  names : ∀ field ∈ payload, Schemas.Plain field.1
  leaves : ∀ field ∈ payload, Leaf platform field.2

theorem Good.plain {payload : Payload} (good : Good platform payload) :
    Plain lastWins platform.format (.dict payload) := by
  obtain ⟨distinct,names,leaves⟩ := good
  refine ⟨?_,⟨congrArg Except.ok (Dict.ofPairs_distinct payload distinct),?_⟩,?_⟩
  · rw [Json.Sound,Json.soundFields_iff]
    exact fun field member => ⟨fun code inside => (names field member code inside).1,
      (leaf_plain (leaves field member)).sound⟩
  · rw [Json.settledFields_iff]
    exact fun field member => (leaf_plain (leaves field member)).settled
  · clear distinct
    rw [Json.Unpaired]
    induction payload with
    | nil => trivial
    | cons field payload ih =>
      obtain ⟨name,names⟩ := List.forall_mem_cons.mp names
      obtain ⟨leaf,leaves⟩ := List.forall_mem_cons.mp leaves
      exact ⟨plain_pairFree name,(leaf_plain leaf).unpaired,ih names leaves⟩

theorem Good.assign {payload : Payload} (good : Good platform payload) {key : Str} {value : Value}
    (name : Schemas.Plain key) (leaf : Leaf platform value) :
    Good platform (Dict.assign key value payload) := by
  refine ⟨Dict.assign_distinct good.distinct,?_,?_⟩
  · intro field member
    rcases Dict.mem_assign member with rfl | before
    · exact name
    · exact good.names field before
  · intro field member
    rcases Dict.mem_assign member with rfl | before
    · exact leaf
    · exact good.leaves field before

/-- The text block of a result holds its structured content. -/
theorem Good.text {payload : Payload} (good : Good platform payload) :
    Json.loads platform.format lastWins (Json.dumpsIndent 2 0 (.dict payload)) =
      .ok (.dict payload) :=
  Json.loads_indent 2 good.plain

theorem Good.loaded {payload : Payload} (good : Good platform payload) :
    loadResponse platform (dumpResponse (.dict payload)) = .ok (.dict payload) := by
  have read := Json.loads_dumps platform.format lastWins ⟨true,false⟩
    (.dict payload) good.plain.sound
  rw [Json.rebuild_unpaired lastWins false _ good.plain.settled good.plain.unpaired] at read
  simp only [loadResponse,dumpResponse,read]

structure GoodRow (customer : Customer) : Prop where
  texts : ∀ text ∈ [customer.customerId,customer.name,customer.email,customer.signedUp],
    Schemas.Plain text
  lifetimeSpend : 0 ≤ customer.lifetimeSpend
  refundableBalance : 0 ≤ customer.refundableBalance

/-- What a handler gives can be written: a payload, or the payload a refusal is turned into. -/
def GoodResult (platform : Platform) : Except Failure Payload → Prop
  | .ok payload => Good platform payload
  | .error (.domainError code message details) =>
    Good platform (Dict.ofPairs ([(lit "error",.str code),(lit "message",.str message)] ++ details))
  | .error _ => True

theorem answerOf_text {tool : Str} {ended : Except Failure Payload}
    (good : GoodResult platform ended) {text : Str} {payload : Payload} {isError : Bool}
    (answered : answerOf tool ended = .result text payload isError) :
    Json.loads platform.format lastWins text = .ok (.dict payload) := by
  cases ended with
  | ok payload =>
    cases answered
    exact good.text
  | error failure =>
    cases failure with
    | domainError code message details =>
      cases answered
      exact good.text
    | _ => cases answered

private theorem statusText_plain (status : Status) : Schemas.Plain status.text := by
  apply plain_ascii
  cases status <;> decide

private theorem lit_plain {text : Str} (ascii : ∀ code ∈ text, code < 128) :
    Leaf platform (.str text) := .text text (plain_ascii ascii)

/-- A payload of named fields is good by its names, which do not depend on what it holds, and its values. -/
theorem good_of {payload : Payload} (keys : List Str) (named : payload.map Prod.fst = keys)
    (distinct : keys.Nodup) (ascii : ∀ key ∈ keys, ∀ code ∈ key, code < 128)
    (leaves : ∀ field ∈ payload, Leaf platform field.2) : Good platform payload where
  distinct := named ▸ distinct
  names field member := plain_ascii (ascii field.1 (named ▸ List.mem_map_of_mem member))
  leaves := leaves

theorem refusal_good {code message : Str} {details : Payload} (keys : List Str)
    (named : details.map Prod.fst = keys) (distinct : ([lit "error",lit "message"] ++ keys).Nodup)
    (ascii : ∀ key ∈ keys, ∀ code ∈ key, code < 128) (codePlain : Schemas.Plain code)
    (messagePlain : Schemas.Plain message) (leaves : ∀ field ∈ details, Leaf platform field.2) :
    GoodResult platform (.error (.domainError code message details)) := by
  have whole : ([(lit "error",Value.str code),(lit "message",.str message)] ++
    details).map Prod.fst =
      [lit "error",lit "message"] ++ keys := by rw [List.map_append,named]; rfl
  rw [GoodResult,Dict.ofPairs_distinct _ (whole ▸ distinct)]
  refine good_of _ whole distinct (List.forall_mem_append.mpr ⟨by decide,ascii⟩)
    (List.forall_mem_append.mpr ⟨?_,leaves⟩)
  exact List.forall_mem_cons.mpr ⟨.text _ codePlain,List.forall_mem_singleton.mpr
    (.text _ messagePlain)⟩

theorem customerNotFound_good {customerId : Str} (plain : Schemas.Plain customerId) :
    GoodResult platform (.error (customerNotFound customerId)) := by
  refine refusal_good [lit "customer_id"] rfl (by decide) (by decide) (plain_ascii (by decide)) ?_
    (List.forall_mem_singleton.mpr (.text _ plain))
  exact plain_append (plain_append (plain_ascii (by decide)) plain) (plain_ascii (by decide))

theorem accountNotActive_good {customerId : Str} (plain : Schemas.Plain customerId)
    (status : Status) :
    GoodResult platform (.error (accountNotActive customerId status)) := by
  refine refusal_good [lit "customer_id",lit "status"] rfl (by decide) (by decide)
    (plain_ascii (by decide)) ?_
    (List.forall_mem_cons.mpr ⟨.text _ plain,List.forall_mem_singleton.mpr
      (.text _ (statusText_plain status))⟩)
  exact plain_append (plain_append (plain_append (plain_append (plain_ascii (by decide)) plain)
    (plain_ascii (by decide)))
    (statusText_plain status)) (plain_ascii (by decide))

theorem insufficient_good {customerId : Str} (plain : Schemas.Plain customerId)
    {amount balance : Int} (positive : 0 ≤ amount) (covered : 0 ≤ balance) :
    GoodResult platform
      (.error (insufficientRefundableBalance platform customerId amount balance)) := by
  refine refusal_good [lit "customer_id",lit "requested",lit "refundable_balance"] rfl
    (by decide) (by decide)
    (plain_ascii (by decide)) ?_ (List.forall_mem_cons.mpr ⟨.text _ plain,
      List.forall_mem_cons.mpr ⟨.amount _ positive,
      List.forall_mem_singleton.mpr (.amount _ covered)⟩⟩)
  exact plain_append
    (plain_append (plain_append (plain_append (plain_append (plain_append (plain_ascii (by decide))
    (amount_plain amount)) (plain_ascii (by decide))) (amount_plain balance))
    (plain_ascii (by decide))) plain) (plain_ascii (by decide))

/-- What `get_customer` returns for a row. -/
def customerPayload (platform : Platform) (customer : Customer) : Payload :=
  [(lit "customer_id",.str customer.customerId),(lit "name",.str customer.name),
    (lit "email",.str customer.email),(lit "status",.str customer.status.text),
      (lit "lifetime_spend",money platform customer.lifetimeSpend),
    (lit "refundable_balance",money platform customer.refundableBalance),
      (lit "signed_up",.str customer.signedUp)]

theorem customerPayload_good {customer : Customer} (row : GoodRow customer) :
    Good platform (customerPayload platform customer) := by
  refine good_of [lit "customer_id",lit "name",lit "email",lit "status",lit "lifetime_spend",
    lit "refundable_balance",lit "signed_up"] rfl (by decide) (by decide) ?_
  obtain ⟨texts,spend,balance⟩ := row
  simp only [List.forall_mem_cons] at texts
  simp only [customerPayload,List.forall_mem_cons]
  exact ⟨.text _ texts.1,.text _ texts.2.1,.text _ texts.2.2.1,.text _ (statusText_plain _),
    .amount _ spend,.amount _ balance,.text _ texts.2.2.2.1,List.forall_mem_nil _⟩

/-- The rows of the customers' table are good. -/
def Rows (store : Store) : Prop := ∀ customerId customer, store.customers.lookup customerId =
    some customer → GoodRow customer

theorem getCustomer_good {store : Store} (rows : Rows store) {customerId : Str}
    (plain : Schemas.Plain customerId) :
    GoodResult platform (getCustomer platform store customerId) := by
  rw [getCustomer]
  cases known : store.customers.lookup customerId with
  | none => exact customerNotFound_good plain
  | some customer => exact customerPayload_good (rows customerId customer known)

/-- What an issued refund is answered with, without the flag. -/
theorem refundPayload_good {refund : Refund} {remaining : Int}
    (texts : ∀ text ∈ [refund.refundId,refund.customerId,refund.reason,refund.createdAt],
      Schemas.Plain text)
    (amount : 0 ≤ refund.amount) (covered : 0 ≤ remaining) :
    Good platform (refundPayload platform refund remaining) := by
  refine good_of [lit "refund_id",lit "customer_id",lit "amount",lit "reason",lit "created_at",
    lit "remaining_refundable_balance",lit "status"] rfl (by decide) (by decide) ?_
  simp only [List.forall_mem_cons] at texts
  simp only [refundPayload,List.forall_mem_cons]
  exact ⟨.text _ texts.1,.text _ texts.2.1,.amount _ amount,.text _ texts.2.2.1,
    .text _ texts.2.2.2.1,.amount _ covered,lit_plain (by decide),List.forall_mem_nil _⟩

section Validated
variable (tables : Unicode.Tables) (classes : Unicode.Classes)

private theorem requiredText_ok {α : Type} {check : Str → Except Schemas.Problem α}
    {given : Option Argument} {result : α} (checked : requiredText check given = .ok result) :
    ∃ value, given = some (.text value) ∧ check value = .ok result := by
  cases given with
  | none => cases checked
  | some argument =>
    cases argument with
    | text value =>
      refine ⟨value,rfl,?_⟩
      cases outcome : check value with
      | error problem => simp [requiredText,outcome,Except.mapError] at checked
      | ok other => simpa [requiredText,outcome,Except.mapError] using checked
    | _ => cases checked

private theorem amountArgument_ok {given : Option Argument} {cents : Int}
    (checked : amountArgument given = .ok cents) :
    ∃ value, Schemas.amountField value = .ok cents := by
  cases given with
  | none => cases checked
  | some argument =>
    cases argument with
    | number value =>
      refine ⟨value,?_⟩
      cases outcome : Schemas.amountField value with
      | error problem => simp [amountArgument,outcome,Except.mapError] at checked
      | ok other => simpa [amountArgument,outcome,Except.mapError] using checked
    | _ => cases checked

private theorem optionalText_ok {α : Type} {check : Option Str → Except Schemas.Problem (Option α)}
    {given : Option Argument} {result : Option α} (absent : check none = .ok none)
    (checked : optionalText check given = .ok result) :
    ∃ value, (∀ text ∈ value, given = some (.text text)) ∧ check value = .ok result := by
  cases given with
  | none =>
    cases checked
    exact ⟨none,by simp,absent⟩
  | some argument =>
    cases argument with
    | null =>
      rw [optionalText,absent] at checked
      cases checked
      exact ⟨none,by simp,absent⟩
    | text value =>
      refine ⟨some value,fun text same => by cases same; rfl,?_⟩
      cases outcome : check (some value) with
      | error problem => simp [optionalText,outcome,Except.mapError] at checked
      | ok other => simpa [optionalText,outcome,Except.mapError] using checked
    | _ => cases checked

private theorem amountField_le {value : ℚ} {cents : Int}
    (checked : Schemas.amountField value = .ok cents) : cents ≤ 10000000 := by
  unfold Schemas.amountField Schemas.twoDecimals at checked
  split_ifs at checked with low high whole
  cases checked
  have bound : value * 100 ≤ 10000000 := by
    have small := not_lt.mp high
    rw [Schemas.maxRefundAmount] at small
    linarith
  rw [← Rat.coe_int_num_of_den_eq_one whole] at bound
  exact_mod_cast bound

/-- A call whose arguments pass is a refund that the schema accepts. -/
theorem refundInput_valid {call : Call} {operation : Operation}
    (valid : refundInput tables classes (call.arguments.getD []) = .ok operation) :
    Schemas.Valid operation ∧ operation.amount ≤ 10000000 := by
  rw [refundInput] at valid
  split at valid
  · rename_i issues customerId amount reason idempotencyKey _ customerIdOk amountOk reasonOk
      idempotencyKeyOk
    cases valid
    obtain ⟨customerText,customerGiven,customerOk⟩ := requiredText_ok customerIdOk
    obtain ⟨value,amountOk⟩ := amountArgument_ok amountOk
    obtain ⟨reasonText,reasonGiven,reasonOk⟩ := requiredText_ok reasonOk
    obtain ⟨keyText,keyGiven,keyOk⟩ := optionalText_ok (by rfl) idempotencyKeyOk
    have range {key text : Str} (given : (call.arguments.getD []).lookup key = some (.text text)) :
      ∀ code ∈ text, code < 0x110000 := by
      obtain ⟨front,back,shape,-⟩ := Dict.assign_split given
      exact call.characters (key,.text text) (by rw [shape]; simp) text rfl
    have characters : ∀ code ∈ customerText ++ reasonText ++ keyText.getD [], code < 0x110000 := by
      refine List.forall_mem_append.mpr ⟨List.forall_mem_append.mpr ⟨range customerGiven,
        range reasonGiven⟩,?_⟩
      cases keyText with
      | none => exact List.forall_mem_nil _
      | some text => exact range (keyGiven text rfl)
    have validated : Schemas.validate tables classes ⟨customerText,value,reasonText,
      keyText,characters⟩ =
        .ok ⟨customerId,amount,reason,idempotencyKey⟩ := by
      simp only [Schemas.validate,customerOk,amountOk,reasonOk,keyOk]
    exact ⟨Schemas.validate_valid tables classes validated,amountField_le amountOk⟩
  · cases valid

theorem recordInput_plain {call : Call} {customerId : Str}
    (valid : recordInput classes (call.arguments.getD []) = .ok customerId) :
    Schemas.Plain customerId := by
  rw [recordInput] at valid
  split at valid
  · rename_i issues other _ customerIdOk
    cases valid
    obtain ⟨text,given,checked⟩ := requiredText_ok customerIdOk
    obtain ⟨front,back,shape,-⟩ := Dict.assign_split given
    have range := call.characters (lit "customer_id",.text text) (by rw [shape]; simp) text rfl
    rw [Schemas.customerIdField] at checked
    split_ifs at checked with surrogate matched
    rw [← Except.ok.inj checked]
    have scalars : ∀ code ∈ text, isSurrogate code = false := by simpa using surrogate
    exact fun code member => ⟨range code member,scalars code member⟩
  · cases valid

end Validated

/-- What the clock and `uuid4` give to a call, in ASCII. -/
structure Instant where
  draw : Draw
  now : ℚ
  drawn : ∀ code ∈ draw.uuidHex ++ draw.createdAt, code < 128

/-- A process comes up again between two calls, never inside one. -/
inductive Action
  | call (instant : Instant) (call : Call)
  | restart

/-- A process that has just come up finds the ledger as it was left. -/
def started (records : List Record) : State := ⟨⟨records,none⟩,Store.start⟩

section Run
variable (platform) (tables : Unicode.Tables) (classes : Unicode.Classes) (wording : Wording)

/-- No statement of the ledger fails. -/
def serve (state : State) (instant : Instant) (call : Call) : State × Answer :=
  handleCallTool tables classes platform config wording ⟨instant.draw,instant.now,{}⟩ call state

def execute (state : State) : Action → State × Option Answer
  | .call instant call => ((serve platform config tables classes wording state instant call).1,
      some (serve platform config tables classes wording state instant call).2)
  | .restart => (started state.connection.committed,none)

/-- The answer to a refund that is new, and to the replay of one. -/
def refundAnswer (replayed : Bool) (payload : Payload) : Answer :=
  textResult (Dict.assign (lit "replayed") (.bool replayed) payload) false

/-- Every record holds a response that was given as new. -/
def Kept (records : List Record) (earlier : List (Option Answer)) : Prop :=
  ∀ record ∈ records, ∃ payload, Good platform payload ∧
  record.response = dumpResponse (.dict payload) ∧
    some (refundAnswer false payload) ∈ earlier

structure Inv (state : State) (earlier : List (Option Answer)) : Prop where
  sound : RefundMoney.Sound ⟨state.connection,state.store,[]⟩
  rows : Rows state.store
  kept : Kept platform state.connection.committed earlier

end Run

def refundCall (operation : Operation) (positive : 0 < operation.amount)
    (bounded : operation.amount ≤ 10000000) (instant : Instant) : RefundMoney.Call :=
  ⟨operation,instant.draw,instant.now,positive,bounded,instant.drawn⟩

/-- How a refund ends: it is refused or raises and no record is kept, it replays one that was answered before, or
it is new and its record is kept. -/
inductive Served (platform : Platform) (config : Config) (now : ℚ) (records : List Record)
    (earlier : List (Option Answer)) :
    Except Failure Payload → List Record → Prop
  | failed (failure : Failure) {left : List Record} (kept : left ⊆ records)
      (good : GoodResult platform (.error failure)) :
      Served platform config now records earlier (.error failure) left
  | replayed (payload : Payload) (good : Good platform payload)
      (before : some (refundAnswer false payload) ∈ earlier) :
      Served platform config now records earlier
        (.ok (Dict.assign (lit "replayed") (.bool true) payload)) (purge config now records)
  | issued (payload : Payload) (record : Record) (good : Good platform payload)
      (response : record.response = dumpResponse (.dict payload)) :
      Served platform config now records earlier
        (.ok (Dict.assign (lit "replayed") (.bool false) payload))
        (purge config now records ++ [record])

theorem purge_subset (config : Config) (now : ℚ) (records : List Record) :
    purge config now records ⊆ records :=
  List.filter_subset_self records

theorem draw_plain (instant : Instant) :
    Schemas.Plain instant.draw.refundId ∧ Schemas.Plain instant.draw.createdAt := by
  refine ⟨plain_ascii ?_,plain_ascii (fun code member =>
    instant.drawn code (List.mem_append_right _ member))⟩
  refine List.forall_mem_append.mpr ⟨by decide,fun code digit => ?_⟩
  obtain ⟨origin,taken,rfl⟩ := List.mem_map.mp digit
  have small := instant.drawn origin (List.mem_append_left _ (List.mem_of_mem_take taken))
  rw [upper]
  split_ifs <;> omega

section Refund
variable {operation : Operation} (valid : Schemas.Valid operation)
    (bounded : operation.amount ≤ 10000000) (instant : Instant)
include valid

/-- What is issued can be written, and so can a refusal. -/
theorem issueRefund_good {store : Store} (rows : Rows store) : (∃ payload, Good platform payload ∧
      (issueRefund platform instant.draw operation.customerId operation.amount operation.reason
      store).1 = .ok (.dict payload)) ∨
    (∃ failure, GoodResult platform (.error failure) ∧
      (issueRefund platform instant.draw operation.customerId operation.amount
      operation.reason store).1 = .error failure) := by
  have positive : 0 ≤ operation.amount := Int.le_of_lt valid.amount
  rw [issueRefund]
  cases known : store.customers.lookup operation.customerId with
  | none => exact Or.inr ⟨_,customerNotFound_good valid.customerId.2,rfl⟩
  | some customer =>
    have row := rows _ customer known
    dsimp only
    by_cases inactive : customer.status ≠ .active
    · rw [if_pos inactive]
      exact Or.inr ⟨_,accountNotActive_good valid.customerId.2 _,rfl⟩
    · rw [if_neg inactive]
      by_cases short : operation.amount > customer.refundableBalance
      · rw [if_pos short]
        exact Or.inr ⟨_,insufficient_good valid.customerId.2 positive row.refundableBalance,rfl⟩
      · rw [if_neg short]
        obtain ⟨id,created⟩ := draw_plain instant
        refine Or.inl ⟨_,refundPayload_good ?_ positive (by omega),rfl⟩
        simp only [Draw.refund,List.forall_mem_cons]
        exact ⟨id,valid.customerId.2,valid.reason,created,List.forall_mem_nil _⟩

omit valid in
theorem issueRefund_rows {store : Store} (rows : Rows store) :
    Rows (issueRefund platform instant.draw operation.customerId operation.amount operation.reason
      store).2 := by
  by_cases refundable : Refundable store operation.customerId operation.amount
  · obtain ⟨customer,known,active,covered⟩ := refundable
    rw [issueRefund_issued platform instant.draw operation.customerId operation.amount
      operation.reason store customer known
      active covered]
    intro customerId other listed
    have row := rows _ customer known
    by_cases same : customerId = operation.customerId
    · subst same
      rw [Dict.lookup_assign] at listed
      obtain rfl := Option.some.inj listed
      exact ⟨row.texts,row.lifetimeSpend,by dsimp only; omega⟩
    · rw [Dict.lookup_assign_other _ _ _ _ same] at listed
      exact rows customerId other listed
  · rw [issueRefund_refused platform instant.draw operation.customerId operation.amount
      operation.reason store refundable]
    exact rows

theorem createRefund_served {store : Store} (rows : Rows store) {records : List Record}
    {earlier : List (Option Answer)} (kept : Kept platform records earlier) :
    Served platform config instant.now records earlier
      (createRefund platform config {} instant.draw instant.now operation ⟨records,none⟩ store).1
      (createRefund platform config {} instant.draw instant.now operation ⟨records,
        none⟩ store).2.1.committed := by
  have ends := runOnce_ends platform config operation instant.now
    (issueRefund platform instant.draw operation.customerId operation.amount operation.reason)
      records store
  have issues := @issueRefund_good platform operation valid instant store rows
  rw [createRefund]
  generalize runOnce platform config {} operation instant.now
    (issueRefund platform instant.draw operation.customerId operation.amount operation.reason)
      ⟨records,none⟩ store = ended at ends
  obtain ⟨result,connection,final⟩ := ended
  dsimp only at ends
  cases ends with
  | refused failure given =>
    refine .failed failure (List.Subset.refl _) ?_
    rcases issues with ⟨payload,_,issued⟩ | ⟨other,good,issued⟩
    · rw [issued] at given
      cases given
    · rw [issued] at given
      cases given
      exact good
  | raised failure system =>
    refine .failed failure (List.Subset.refl _) ?_
    cases failure with
    | domainError code message details => cases system
    | _ => trivial
  | replayed key record value found loaded =>
    have member : record ∈ records :=
      purge_subset config instant.now records (List.mem_of_find?_eq_some found)
    obtain ⟨payload,good,response,before⟩ := kept record member
    rw [response,good.loaded] at loaded
    cases loaded
    exact .replayed payload good before
  | issued record value given response =>
    rcases issues with ⟨payload,good,issued⟩ | ⟨other,_,issued⟩
    · rw [issued] at given
      cases given
      exact .issued payload record good response
    · rw [issued] at given
      cases given

omit valid in
theorem createRefund_rows {store : Store} (rows : Rows store) (connection : Connection) :
    Rows (createRefund platform config {} instant.draw instant.now operation connection
      store).2.2 := by
  rw [createRefund_state]
  rcases runOnce_state platform config {} operation instant.now
      (issueRefund platform instant.draw operation.customerId operation.amount operation.reason)
        connection store with
    ⟨-,moved⟩ | ⟨-,moved⟩
  · rw [moved]
    exact issueRefund_rows instant rows
  · rw [moved]
    exact rows

end Refund

theorem Kept.later {records left : List Record} {earlier : List (Option Answer)}
    (kept : Kept platform records earlier) (fewer : left ⊆ records) (more : List (Option Answer)) :
    Kept platform left (earlier ++ more) := by
  intro record member
  obtain ⟨payload,good,response,before⟩ := kept record (fewer member)
  exact ⟨payload,good,response,List.mem_append_left _ before⟩

theorem Served.kept {now : ℚ} {records left : List Record} {earlier : List (Option Answer)}
    {ended : Except Failure Payload}
    (served : Served platform config now records earlier ended left)
    (kept : Kept platform records earlier) :
    Kept platform left (earlier ++ [some (answerOf triggerRefund ended)]) := by
  cases served with
  | failed failure fewer _ => exact kept.later fewer _
  | replayed payload good before => exact kept.later (purge_subset config now records) _
  | issued payload record good response =>
    refine List.forall_mem_append.mpr ⟨kept.later (purge_subset config now records) _,
      List.forall_mem_singleton.mpr ?_⟩
    exact ⟨payload,good,response,List.mem_append_right _ (List.mem_singleton.mpr rfl)⟩

/-- A result's text holds its payload, and the payload of a replay is that of an earlier new refund but for the flag. -/
structure Fair (platform : Platform) (earlier : List (Option Answer)) (answer : Option Answer) :
    Prop where
  text : ∀ text payload isError, answer = some (.result text payload isError) →
    Json.loads platform.format lastWins text = .ok (.dict payload)
  replay : ∀ text payload, answer = some (.result text payload false) →
    payload.lookup (lit "replayed") = some (.bool true) →
    ∃ original, payload = Dict.assign (lit "replayed") (.bool true) original ∧
    some (refundAnswer false original) ∈ earlier

theorem fair_of {earlier : List (Option Answer)} {tool : Str} {ended : Except Failure Payload}
    (good : GoodResult platform ended)
    (replay : ∀ payload, ended = .ok payload → payload.lookup (lit "replayed") = some (.bool true) →
      ∃ original, payload = Dict.assign (lit "replayed") (.bool true) original ∧
      some (refundAnswer false original) ∈ earlier) :
    Fair platform earlier (some (answerOf tool ended)) := by
  refine ⟨fun text payload isError same => answerOf_text good (Option.some.inj same),?_⟩
  intro text payload same flagged
  cases ended with
  | ok given =>
    cases same
    exact replay payload rfl flagged
  | error failure => cases failure <;> cases same

theorem fair_error (earlier : List (Option Answer)) (code : Int) (message : Str) (data : Value) :
    Fair platform earlier (some (.error code message data)) := by
  constructor <;> simp

theorem Served.fair {now : ℚ} {records left : List Record} {earlier : List (Option Answer)}
    {ended : Except Failure Payload}
    (served : Served platform config now records earlier ended left) :
    Fair platform earlier (some (answerOf triggerRefund ended)) := by
  cases served with
  | failed failure _ good => exact fair_of good (by simp)
  | replayed payload good before =>
    refine fair_of (good.assign (plain_ascii (by decide)) (.flag true)) ?_
    rintro _ ⟨⟩ _
    exact ⟨payload,rfl,before⟩
  | issued payload record good response =>
    refine fair_of (good.assign (plain_ascii (by decide)) (.flag false)) ?_
    rintro _ ⟨⟩ flagged
    rw [Dict.lookup_assign] at flagged
    cases flagged

section Steps
variable (platform) (tables : Unicode.Tables) (classes : Unicode.Classes) (wording : Wording)

theorem started_inv {records : List Record} (earlier : List (Option Answer))
    (kept : Kept platform records earlier) :
    Inv platform (started records) earlier := by
  refine ⟨⟨rfl,(RefundMoney.start_sound records).known,List.forall_mem_nil _⟩,?_,kept⟩
  intro customerId customer known
  have seeded : ∀ row ∈ seed, (∀ text ∈ [row.2.customerId,row.2.name,row.2.email,row.2.signedUp],
    ∀ code ∈ text, code < 128) ∧
      0 ≤ row.2.lifetimeSpend ∧ 0 ≤ row.2.refundableBalance := by decide
  obtain ⟨front,back,shape,-⟩ := Dict.assign_split known
  obtain ⟨texts,spend,balance⟩ := seeded (customerId,customer) (by
    rw [show seed = front ++ (customerId,customer)::back from shape]; simp)
  exact ⟨fun text member => plain_ascii (texts text member),spend,balance⟩

/-- A call keeps the invariant and is answered fairly. -/
theorem serve_inv {state : State} {earlier : List (Option Answer)}
    (inv : Inv platform state earlier) (instant : Instant) (call : Call) :
    Inv platform (serve platform config tables classes wording state instant call).1
        (earlier ++ [some (serve platform config tables classes wording state instant call).2]) ∧
      Fair platform earlier
        (some (serve platform config tables classes wording state instant call).2) := by
  have still (answer : Answer) : Inv platform state (earlier ++ [some answer]) :=
    ⟨inv.sound,inv.rows,inv.kept.later (List.Subset.refl _) _⟩
  rw [serve,handleCallTool]
  split_ifs with record refund
  · cases valid : recordInput classes (call.arguments.getD []) with
    | error issues => exact ⟨still _,fair_error _ _ _ _⟩
    | ok customerId =>
      refine ⟨still _,fair_of (getCustomer_good inv.rows (recordInput_plain classes valid)) ?_⟩
      intro payload given flagged
      rw [getCustomer] at given
      cases known : state.store.customers.lookup customerId with
      | none => simp [known] at given
      | some customer =>
        simp only [known,Except.ok.injEq] at given
        rw [← given] at flagged
        cases flagged
  · cases valid : refundInput tables classes (call.arguments.getD []) with
    | error issues => exact ⟨still _,fair_error _ _ _ _⟩
    | ok operation =>
      obtain ⟨schema,bounded⟩ := refundInput_valid tables classes valid
      obtain ⟨⟨records,pending⟩,store⟩ := state
      obtain rfl : pending = none := inv.sound.idle
      have served := createRefund_served config schema instant inv.rows inv.kept
      have sound :=
        RefundMoney.step_sound platform config inv.sound
          (refundCall operation schema.amount bounded instant)
      exact ⟨⟨⟨sound.idle,sound.known,sound.rows⟩,createRefund_rows config instant inv.rows _,
        served.kept config inv.kept⟩,served.fair config⟩
  · exact ⟨still _,fair_error _ _ _ _⟩

theorem execute_inv {state : State} {earlier : List (Option Answer)}
    (inv : Inv platform state earlier) (action : Action) :
    Inv platform (execute platform config tables classes wording state action).1
        (earlier ++ [(execute platform config tables classes wording state action).2]) ∧
      Fair platform earlier (execute platform config tables classes wording state action).2 := by
  cases action with
  | call instant call => exact serve_inv platform config tables classes wording inv instant call
  | restart => exact ⟨started_inv platform _ (inv.kept.later (List.Subset.refl _) _),
      by simp [execute],by simp [execute]⟩

theorem run_inv {state : State} {earlier : List (Option Answer)} (inv : Inv platform state earlier)
    (actions : List Action) :
    Inv platform (after (execute platform config tables classes wording) state actions)
      (earlier ++ answers (execute platform config tables classes wording) state actions) := by
  induction actions generalizing state earlier with
  | nil => rwa [answers,List.append_nil]
  | cons action rest ih =>
    have next := ih (execute_inv platform config tables classes wording inv action).1
    rwa [List.append_assoc,List.singleton_append] at next

/-- In any session over an empty ledger whose statements do not fail, restarts between its calls included, every
result's text block holds its structured content, and every replayed refund is answered as one that was new before,
but for the flag. -/
theorem answers_fair (before : List Action) (action : Action) :
    Fair platform (answers (execute platform config tables classes wording) (started []) before)
      (execute platform config tables classes wording
        (after (execute platform config tables classes wording) (started []) before) action).2 := by
  have inv := run_inv platform config tables classes wording
    (started_inv platform [] (List.forall_mem_nil _)) before
  exact (execute_inv platform config tables classes wording inv action).2

/-- The refund that a call asks for, if its arguments are valid. -/
def requested (call : Call) : Option Operation :=
  if call.name = triggerRefund then (refundInput tables classes (call.arguments.getD [])).toOption
  else none

/-- A result whose flag says that it is no replay. -/
def isNew : Answer → Bool
  | .result _ payload false => (RefundMoney.newAnswer (.ok payload)).isSome
  | _ => false

/-- What an answer says was paid to the customer. -/
def credited (customerId : Str) (call : Call) (answer : Answer) : Int :=
  match requested tables classes call with
  | some operation => if operation.customerId = customerId ∧ isNew answer = true then
      operation.amount else 0
  | none => 0

abbrev serveNext (state : State) (exchange : Instant × Call) : State × Answer :=
  serve platform config tables classes wording state exchange.1 exchange.2

/-- What the answers of a session say was paid to the customer. -/
def paid (customerId : Str) (state : State) (calls : List (Instant × Call)) : Int :=
  ((calls.zip (answers (serveNext platform config tables classes wording) state calls)).map
    (fun exchange => credited tables classes customerId exchange.1.2 exchange.2)).sum

abbrev SoundState (state : State) : Prop := RefundMoney.Sound ⟨state.connection,state.store,[]⟩

private theorem isNew_answerOf (tool : Str) (ended : Except Failure Payload) :
    isNew (answerOf tool ended) = (RefundMoney.newAnswer ended).isSome := by
  cases ended with
  | error failure => cases failure <;> rfl
  | ok payload => rfl

def debited (customer : Customer) (amount : Int) : Customer :=
  {customer with refundableBalance := customer.refundableBalance - amount}

variable {state : State} (sound : SoundState state) (instant : Instant) (call : Call)
include sound

theorem serve_sound :
    SoundState (serve platform config tables classes wording state instant call).1 := by
  rw [serve,handleCallTool]
  split_ifs
  · cases recordInput classes (call.arguments.getD []) <;> exact sound
  · cases valid : refundInput tables classes (call.arguments.getD []) with
    | error issues => exact sound
    | ok operation =>
      obtain ⟨schema,bounded⟩ := refundInput_valid tables classes valid
      have next :=
        RefundMoney.step_sound platform config sound
          (refundCall operation schema.amount bounded instant)
      exact ⟨next.idle,next.known,next.rows⟩
  · exact sound

/-- A call takes from a balance what its answer says was paid. -/
theorem serve_credited {customerId : Str} {customer : Customer}
    (known : state.store.customers.lookup customerId = some customer) :
    (serve platform config tables classes wording state instant call).1.store.customers.lookup
      customerId =
      some (debited customer (credited tables classes customerId call
        (serve platform config tables classes wording state instant call).2)) := by
  have unpaid {amount : Int} (nothing : amount = 0) : some customer =
    some (debited customer amount) := by
    rw [nothing,debited,Int.sub_zero]
  simp only [serve,handleCallTool,credited,requested]
  split_ifs with record refund
  · rw [record] at refund
    exact absurd refund (by decide)
  · cases recordInput classes (call.arguments.getD []) <;> exact known.trans (unpaid rfl)
  · cases valid : refundInput tables classes (call.arguments.getD []) with
    | error issues => exact known.trans (unpaid rfl)
    | ok operation =>
      obtain ⟨schema,bounded⟩ := refundInput_valid tables classes valid
      have answered := RefundMoney.step_answers platform config ⟨state.connection,state.store,[]⟩
        (refundCall operation schema.amount bounded instant)
      simp only [isNew_answerOf,Except.toOption]
      cases RefundMoney.step_moves platform config sound
        (refundCall operation schema.amount bounded instant) with
      | still _ store answers =>
        rw [answers,List.self_eq_append_right,Option.toList_eq_nil_iff] at answered
        simp only [refundCall] at answered
        have same : (createRefund platform config {} instant.draw instant.now operation
          state.connection state.store).2.2 =
            state.store := store
        rw [same,answered]
        exact known.trans (unpaid (if_neg (by simp)))
      | paid _ payer listed covered store answers _ =>
        obtain ⟨answer,-,given⟩ := answers (fun code member => (schema.reason code member).2)
        rw [given,List.append_cancel_left_eq] at answered
        have new : (RefundMoney.newAnswer (createRefund platform config {} instant.draw instant.now
          operation state.connection
            state.store).1).isSome = true := by
          rw [Option.isSome_iff_exists]
          exact ⟨answer,Option.toList_eq_singleton_iff.mp answered.symm⟩
        have moved : (createRefund platform config {} instant.draw instant.now operation
          state.connection state.store).2.2 = _ := store
        rw [moved,new]
        simp only [refundCall] at listed ⊢
        by_cases same : customerId = operation.customerId
        · subst same
          obtain rfl := Option.some.inj (known.symm.trans listed)
          rw [Dict.lookup_assign,if_pos ⟨rfl,trivial⟩]
          rfl
        · rw [Dict.lookup_assign_other _ _ _ _ same,if_neg (fun both => same both.1.symm)]
          exact known.trans (unpaid rfl)
  · exact known.trans (unpaid rfl)

omit sound in
theorem debited_debited (customer : Customer) (first second : Int) :
    debited (debited customer first) second = debited customer (first + second) := by
  simp only [debited,Int.sub_sub]

/-- A session takes from a balance what its answers say was paid, and no balance is ever negative. -/
theorem session_debited (calls : List (Instant × Call)) {customerId : Str} {customer : Customer}
    (known : state.store.customers.lookup customerId = some customer) :
    SoundState (after (serveNext platform config tables classes wording) state calls) ∧
    (after (serveNext platform config tables classes wording) state calls).store.customers.lookup
      customerId =
      some (debited customer (paid platform config tables classes wording customerId
        state calls)) := by
  induction calls generalizing state customer with
  | nil =>
    refine ⟨sound,known.trans ?_⟩
    rw [paid,answers,List.zip_nil_left,List.map_nil,List.sum_nil,debited,Int.sub_zero]
  | cons call calls ih =>
    have next := serve_sound platform config tables classes wording sound call.1 call.2
    have credited := serve_credited platform config tables classes wording sound call.1 call.2 known
    obtain ⟨later,final⟩ := ih next credited
    refine ⟨later,final.trans ?_⟩
    rw [debited_debited]
    rfl

end Steps

/-- In a session that starts with the seeded customers, on a ledger whose statements do not fail,
`get_customer_record` always shows the seeded balance less what the answers so far said was newly refunded, and that
is never negative. -/
theorem session_balance (platform : Platform) (config : Config) (tables : Unicode.Tables)
    (classes : Unicode.Classes) (wording : Wording) (records : List Record)
    (calls : List (Instant × Call)) (instant : Instant) (call : Call) {customerId : Str}
    {customer : Customer} (seeded : Store.start.customers.lookup customerId = some customer)
    (record : call.name = getCustomerRecord) (asks : recordInput classes (call.arguments.getD []) =
      .ok customerId) :
    0 ≤ customer.refundableBalance - paid platform config tables classes wording customerId
      (started records) calls ∧
    (serve platform config tables classes wording
        (after (serveNext platform config tables classes wording) (started records) calls)
          instant call).2 =
      textResult (customerPayload platform (debited customer
        (paid platform config tables classes wording customerId (started records) calls)))
          false := by
  have sound : SoundState (started records) :=
    ⟨rfl,(RefundMoney.start_sound records).known,List.forall_mem_nil _⟩
  obtain ⟨final,known⟩ := session_debited platform config tables classes wording sound calls seeded
  refine ⟨(final.known _ _ known).2,?_⟩
  simp only [serve,handleCallTool,record,if_true,asks,getCustomer,known]
  rfl

def adaLovelace : Customer :=
  ⟨lit "CUST-00042",lit "Ada Lovelace",lit "ada@example.com",.active,124000,32000,lit "2023-04-11"⟩

/-- A refund of 49.99 to her, and a look at her record. -/
def refundAda : Call :=
  ⟨triggerRefund,some [(lit "customer_id",.text (lit "CUST-00042")),
    (lit "amount",.number (4999/100)),
    (lit "reason",.text (lit "Duplicate charge"))],by simp; decide⟩

def recordOfAda : Call :=
  ⟨getCustomerRecord,some [(lit "customer_id",.text (lit "CUST-00042"))],by simp; decide⟩

def noon : Instant :=
  ⟨⟨lit "0f8fad5bd9cb469fa16570867728950e",lit "2026-01-05T10:00:00+00:00"⟩,0,by decide⟩

def silent : Wording := ⟨fun _ => [],fun _ => []⟩

theorem session_balance_refunded :
    0 ≤ adaLovelace.refundableBalance - paid samplePlatform defaultConfig Unicode.ascii
      Unicode.asciiClasses silent
      (lit "CUST-00042") (started []) [(noon,refundAda)] ∧
    (serve samplePlatform defaultConfig Unicode.ascii Unicode.asciiClasses silent
        (after (serveNext samplePlatform defaultConfig Unicode.ascii Unicode.asciiClasses silent)
          (started [])
          [(noon,refundAda)]) noon recordOfAda).2 =
      textResult (customerPayload samplePlatform (debited adaLovelace
        (paid samplePlatform defaultConfig Unicode.ascii Unicode.asciiClasses silent
          (lit "CUST-00042") (started [])
          [(noon,refundAda)]))) false :=
  session_balance samplePlatform defaultConfig Unicode.ascii Unicode.asciiClasses silent []
    [(noon,refundAda)] noon
    recordOfAda rfl rfl (by rfl)

end QuilrMcp.CustomerMcp.Session
