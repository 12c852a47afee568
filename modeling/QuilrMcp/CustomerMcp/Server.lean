import QuilrMcp.CustomerMcp.RefundMoney
import QuilrMcp.CustomerMcp.Schemas
import QuilrMcp.Library.JsonIndent
import QuilrMcp.Library.Trace

/-! The tools of the server: validation, dispatch, and the channel that each failure is answered on. A
session is one call after another; a restart of the process keeps the ledger and loses the store. -/
namespace QuilrMcp.CustomerMcp
open Library Library.Text Library.Sqlite

def Failure.isDomain : Failure → Bool
  | .domainError _ _ _ => true
  | _ => false

theorem encode_error {text : Str} {failure : Failure} (failed : encode text = .error failure) :
    failure.isDomain = false := by
  rw [encode] at failed
  cases encoded : Encoding.encodeUtf8 text with
  | none =>
    simp only [encoded,Except.error.injEq] at failed
    rw [← failed]
    rfl
  | some bytes => simp [encoded] at failed

theorem fingerprint_error {platform : Platform} {customerId reason : Str} {amount : Int}
    {failure : Failure} (failed : fingerprint platform customerId amount reason = .error failure) :
    failure.isDomain = false := by
  rw [fingerprint] at failed
  generalize Json.dumps _ _ = material at failed
  cases encoded : encode material with
  | error other =>
    rw [encoded] at failed
    cases failed
    exact encode_error encoded
  | ok bytes => simp [encoded,Except.map] at failed

theorem fingerprint_map_error {platform : Platform} {customerId reason : Str} {amount : Int}
    {failure : Failure} {α : Type} {f : Str → α}
    (failed : (fingerprint platform customerId amount reason).map f = .error failure) :
    failure.isDomain = false := by
  cases printed : fingerprint platform customerId amount reason with
  | error other =>
    rw [printed] at failed
    cases failed
    exact fingerprint_error printed
  | ok print => simp [printed,Except.map] at failed

theorem operationKey_error {platform : Platform} {operation : Operation} {failure : Failure}
    (failed : operationKey platform operation = .error failure) : failure.isDomain = false := by
  rw [operationKey] at failed
  cases supplied : operation.idempotencyKey with
  | none =>
    simp only [supplied] at failed
    exact fingerprint_map_error failed
  | some key =>
    simp only [supplied] at failed
    split_ifs at failed
    exact fingerprint_map_error failed

theorem loadResponse_error {platform : Platform} {response : Str} {failure : Failure}
    (failed : loadResponse platform response = .error failure) : failure.isDomain = false := by
  rw [loadResponse] at failed
  split at failed
  · contradiction
  · cases failed
    rfl

theorem recordOf_error {platform : Platform} {operation : Operation} {key : Str}
    {payload : Json.Value} {now : ℚ} {failure : Failure}
    (failed : recordOf platform operation key payload now = .error failure) :
    failure.isDomain = false := by
  rw [recordOf] at failed
  exact fingerprint_map_error failed

theorem insert_error {connection after : Connection} {ending : Ending} {record : Record}
    {failure : Failure} (failed : connection.insert ending record = (.error failure,after)) :
    failure.isDomain = false := by
  simp only [Connection.insert] at failed
  cases encoded : encode (record.operationKey ++ record.customerId ++ record.fingerprint ++
    record.response) with
  | error other =>
    simp only [encoded] at failed
    cases failed
    exact encode_error encoded
  | ok bytes =>
    cases ending with
    | done =>
      simp only [encoded] at failed
      split_ifs at failed
      · cases failed
        rfl
      · cases failed
    | raised =>
      simp only [encoded] at failed
      cases failed
      rfl
    | aborted =>
      simp only [encoded] at failed
      cases failed
      rfl

theorem commit_error {connection after : Connection} {ending : Ending} {failure : Failure}
    (failed : connection.commit Failure.databaseError ending = (.error failure,after)) :
    failure.isDomain = false := by
  simp only [Connection.commit] at failed
  generalize connection.pending = pending at failed
  cases pending with
  | none =>
    cases failed
    rfl
  | some rows =>
    cases ending with
    | done => cases failed
    | raised =>
      cases failed
      rfl
    | aborted =>
      cases failed
      rfl

theorem rollback_cases {connection after : Connection} {ending : Ending}
    {result : Except Failure Unit} (ended : connection.rollback Failure.databaseError ending =
      (result,after)) :
    result = .error .databaseError ∨ result = .ok () ∧ after = ⟨connection.committed,none⟩ := by
  simp only [Connection.rollback] at ended
  generalize connection.pending = pending at ended
  cases pending with
  | none =>
    cases ended
    exact Or.inl rfl
  | some rows =>
    cases ending with
    | done =>
      cases ended
      exact Or.inr ⟨rfl,rfl⟩
    | raised =>
      cases ended
      exact Or.inl rfl
    | aborted =>
      cases ended
      exact Or.inl rfl

section RunOnce
variable {σ : Type} (platform : Platform) (config : Config) (endings : Endings)
    (operation : Operation) (now : ℚ)
  (issue : σ → Except Failure Json.Value × σ)

/-- A refusal is the one that `issue` raised, and the transaction is still open behind it. -/
private theorem replayOrIssue_domain (key : Str) (records : List Record) (state : σ) {failure : Failure} (domain : failure.isDomain = true)
    (refused : (replayOrIssue platform config endings operation key now issue ⟨records,some records⟩ state).1 = .error failure) :
    (issue state).1 = .error failure ∧ ∃ rows,
      (replayOrIssue platform config endings operation key now issue ⟨records,some records⟩ state).2 =
        (⟨records,some rows⟩,(issue state).2) := by
  have system {other : Failure} (known : other.isDomain = false) (same : other = failure) : False := by
    rw [same,domain] at known
    contradiction
  simp only [replayOrIssue,Connection.deleteExpired] at refused ⊢
  cases deleted : endings.delete with
  | raised => exact absurd (Except.error.inj (by simpa only [deleted] using refused)) (fun same => system rfl same)
  | aborted => exact absurd (Except.error.inj (by simpa only [deleted] using refused)) (fun same => system rfl same)
  | done =>
    simp only [deleted,Connection.write,Connection.selectResponse,Connection.rows,Option.getD_some] at refused ⊢
    cases bound : encode key with
    | error other =>
      simp only [bound] at refused
      exact (system (encode_error bound) (Except.error.inj refused)).elim
    | ok bytes =>
      simp only [bound] at refused ⊢
      cases selected : endings.select with
      | raised => exact absurd (Except.error.inj (by simpa only [selected] using refused)) (fun same => system rfl same)
      | aborted => exact absurd (Except.error.inj (by simpa only [selected] using refused)) (fun same => system rfl same)
      | done =>
        simp only [selected] at refused ⊢
        generalize List.find? _ _ = found at refused ⊢
        cases found with
        | some record =>
          simp only [Option.map_some] at refused
          cases loaded : loadResponse platform record.response with
          | error other =>
            simp only [loaded,Except.map] at refused
            exact (system (loadResponse_error loaded) (Except.error.inj refused)).elim
          | ok value => simp [loaded,Except.map] at refused
        | none =>
          simp only [Option.map_none] at refused ⊢
          cases issued : issue state with
          | mk result final =>
            simp only [issued] at refused ⊢
            cases result with
            | error other =>
              simp only [Except.error.injEq] at refused ⊢
              exact ⟨refused,_,rfl⟩
            | ok payload =>
              simp only at refused
              cases recorded : recordOf platform operation key payload now with
              | error other =>
                simp only [recorded] at refused
                exact (system (recordOf_error recorded) (Except.error.inj refused)).elim
              | ok record =>
                simp only [recorded] at refused
                generalize noted : Connection.insert _ _ record = ended at refused
                obtain ⟨result,after⟩ := ended
                cases result with
                | ok _ => cases refused
                | error other => exact (system (insert_error noted) (Except.error.inj refused)).elim

/-- A refused call leaves the ledger as it found it. -/
theorem runOnce_domain (connection : Connection) (state : σ) {failure : Failure}
    (domain : failure.isDomain = true)
    (refused : (runOnce platform config endings operation now issue connection state).1 =
      .error failure) :
    (issue state).1 = .error failure ∧
      (runOnce platform config endings operation now issue connection state).2 =
      (connection,(issue state).2) := by
  have system {other : Failure} (known : other.isDomain = false) (same : other =
    failure) : False := by
    rw [same,domain] at known
    contradiction
  rw [runOnce] at refused ⊢
  cases keyed : operationKey platform operation with
  | error other =>
    simp only [keyed] at refused
    exact (system (operationKey_error keyed) (Except.error.inj refused)).elim
  | ok key =>
    simp only [keyed,immediate,Connection.beginImmediate] at refused ⊢
    obtain ⟨committed,pending⟩ := connection
    cases pending with
    | some rows => exact (system rfl (Except.error.inj refused)).elim
    | none =>
      cases begun : endings.begin with
      | raised =>
        simp only [begun] at refused
        exact (system rfl (Except.error.inj refused)).elim
      | aborted =>
        simp only [begun] at refused
        exact (system rfl (Except.error.inj refused)).elim
      | done =>
        simp only [begun] at refused ⊢
        have body :=
          replayOrIssue_domain platform config endings operation now issue key
            committed state domain
        generalize replayOrIssue platform config endings operation key now issue ⟨committed,
          some committed⟩ state = ended
          at refused body ⊢
        obtain ⟨result,after,final⟩ := ended
        cases result with
        | ok value =>
          simp only at refused
          generalize closing : after.commit Failure.databaseError endings.commit = closed at refused
          obtain ⟨result,last⟩ := closed
          cases result with
          | ok _ => cases refused
          | error other => exact (system (commit_error closing) (Except.error.inj refused)).elim
        | error other =>
          simp only at refused ⊢
          generalize closing : after.rollback Failure.databaseError endings.rollback =
            closed at refused ⊢
          obtain ⟨result,last⟩ := closed
          obtain ending | ending := rollback_cases closing
          · rw [ending] at refused
            exact (system rfl (Except.error.inj refused)).elim
          · obtain ⟨settled,restored⟩ := ending
            simp only [settled] at refused ⊢
            obtain ⟨raised,rows,left⟩ := body refused
            simp only [Prod.mk.injEq] at left
            obtain ⟨opened,untouched⟩ := left
            refine ⟨raised,?_⟩
            rw [restored,opened,untouched]

end RunOnce

end QuilrMcp.CustomerMcp

namespace QuilrMcp.CustomerMcp.Server
open Library Library.Text Library.Sqlite
open Library.Json (Value)
open Library.Trace (answers after heeded after_heeded)
open Schemas (Problem customerIdField amountField reasonField idempotencyKeyField)

/-- A value of the arguments, by what the field validators tell apart. -/
inductive Argument
  | null
  | boolean (value : Bool)
  | number (value : ℚ)
  | nonFinite
  | text (value : Str)
  | container

abbrev Fields := List (Str × Argument)

/-- What is wrong with a field. -/
inductive Defect
  | missing
  | extraForbidden
  | stringType
  | floatType
  | finiteNumber
  | constraint (problem : Problem)
  deriving DecidableEq

structure Issue where
  field : Str
  defect : Defect
  deriving DecidableEq

def requiredText {α : Type} (check : Str → Except Problem α) : Option Argument → Except Defect α
  | none => .error .missing
  | some (.text value) => (check value).mapError .constraint
  | some _ => .error .stringType

/-- `_reject_non_numeric` goes before the type and the bounds. -/
def amountArgument : Option Argument → Except Defect Int
  | none => .error .missing
  | some (.boolean _) => .error (.constraint (.valueError (lit "must be a number, not a boolean")))
  | some (.text _) => .error (.constraint (.valueError (lit "must be a JSON number, not a string")))
  | some (.number value) => (amountField value).mapError .constraint
  | some .nonFinite => .error .finiteNumber
  | some _ => .error .floatType

def optionalText {α : Type} (check : Option Str → Except Problem (Option α)) :
    Option Argument → Except Defect (Option α)
  | none => .ok none
  | some .null => (check none).mapError .constraint
  | some (.text value) => (check (some value)).mapError .constraint
  | some _ => .error .stringType

def issueOf {α : Type} (field : Str) : Except Defect α → List Issue
  | .ok _ => []
  | .error defect => [⟨field,defect⟩]

/-- `extra="forbid"` -/
def extraIssues (declared : List Str) (arguments : Fields) : List Issue :=
  (arguments.filter (fun argument => argument.1 ∉ declared)).map (fun argument =>
    ⟨argument.1,.extraForbidden⟩)

section Inputs
variable (tables : Unicode.Tables) (classes : Unicode.Classes)

/-- `GetCustomerRecordInput` -/
def recordInput (arguments : Fields) : Except (List Issue) Str :=
  let customerId := requiredText (customerIdField classes) (arguments.lookup (lit "customer_id"))
  match issueOf (lit "customer_id") customerId ++ extraIssues [lit "customer_id"] arguments,
    customerId with
  | [], .ok customerId => .ok customerId
  | issues, _ => .error issues

def refundFields : List Str := [lit "customer_id",lit "amount",lit "reason",lit "idempotency_key"]

/-- `TriggerRefundInput` -/
def refundInput (arguments : Fields) : Except (List Issue) Operation :=
  let customerId := requiredText (customerIdField classes) (arguments.lookup (lit "customer_id"))
  let amount := amountArgument (arguments.lookup (lit "amount"))
  let reason := requiredText (reasonField tables) (arguments.lookup (lit "reason"))
  let idempotencyKey :=
    optionalText (idempotencyKeyField tables) (arguments.lookup (lit "idempotency_key"))
  match issueOf (lit "customer_id") customerId ++ issueOf (lit "amount") amount ++
    issueOf (lit "reason") reason ++
      issueOf (lit "idempotency_key") idempotencyKey ++ extraIssues refundFields arguments,
    customerId, amount, reason, idempotencyKey with
  | [], .ok customerId, .ok amount, .ok reason, .ok idempotencyKey =>
    .ok ⟨customerId,amount,reason,idempotencyKey⟩
  | issues, _, _, _, _ => .error issues

end Inputs

def methodNotFound : Int := -32601
def invalidParams : Int := -32602
def internalError : Int := -32603

abbrev Payload := List (Str × Value)

/-- A result carries its payload twice, as a text and as structured content. -/
inductive Answer
  | result (text : Str) (payload : Payload) (isError : Bool)
  | error (code : Int) (message : Str) (data : Value)

def textResult (payload : Payload) (isError : Bool) : Answer :=
  .result (Json.dumpsIndent 2 0 (.dict payload)) payload isError

def getCustomerRecord : Str := lit "get_customer_record"
def triggerRefund : Str := lit "trigger_refund"

/-- The keys of `TOOLS`. -/
def tools : List Str := [getCustomerRecord,triggerRefund]

/-- The tool name as Python quotes it. -/
def quoted (tool : Str) : Str := 39::tool ++ [39]

/-- The path of an issue; a name that is empty is none. -/
def Issue.path (issue : Issue) : Str := if issue.field = [] then lit "(root)" else issue.field

/-- What the schema library says of a defect: its message and its type. -/
structure Wording where
  message : Defect → Str
  kind : Defect → Str

def invalidParamsError (wording : Wording) (tool : Str) (issues : List Issue) : Answer :=
  .error invalidParams
    (lit "Invalid arguments for tool " ++ quoted tool ++ lit ": " ++
      (lit "; ").intercalate (issues.map (fun issue => issue.path ++ lit ": " ++
        wording.message issue.defect)))
    (.dict [(lit "tool",.str tool),(lit "issues",.list (issues.map (fun issue =>
      .dict [(lit "field",.str issue.path),(lit "error",.str (wording.message issue.defect)),
        (lit "type",.str (wording.kind issue.defect))])))])

def unknownToolError : Answer :=
  .error methodNotFound (lit "Unknown tool.")
    (.dict [(lit "available_tools",.list (tools.map .str))])

def internalErrorOf (tool : Str) : Answer :=
  .error internalError (lit "Internal error while executing tool " ++ quoted tool ++ lit ".")
    (.dict [(lit "tool",.str tool)])

/-- What a handler returned or raised. -/
def answerOf (tool : Str) : Except Failure Payload → Answer
  | .ok payload => textResult payload false
  | .error (.domainError code message details) =>
    textResult (Dict.ofPairs ([(lit "error",.str code),(lit "message",.str message)] ++
      details)) true
  | .error _ => internalErrorOf tool

/-- Both tools of the server, as they stand in the memory of one process. -/
structure State where
  connection : Connection
  store : Store

/-- What the clock, `uuid4` and the database give to one call. -/
structure Moment where
  draw : Draw
  now : ℚ
  endings : Endings := {}

structure Call where
  name : Str
  arguments : Option Fields
  characters : ∀ argument ∈ arguments.getD [], ∀ text, argument.2 = .text text → ∀ code ∈ text,
    code < 0x110000

section Handler
variable (tables : Unicode.Tables) (classes : Unicode.Classes) (platform : Platform)
    (config : Config) (wording : Wording)

def handleCallTool (moment : Moment) (call : Call) (state : State) : State × Answer :=
  if call.name = getCustomerRecord then
    match recordInput classes (call.arguments.getD []) with
    | .error issues => (state,invalidParamsError wording getCustomerRecord issues)
    | .ok customerId =>
      (state,answerOf getCustomerRecord (getCustomer platform state.store customerId))
  else if call.name = triggerRefund then
    match refundInput tables classes (call.arguments.getD []) with
    | .error issues => (state,invalidParamsError wording triggerRefund issues)
    | .ok operation =>
      let ended := createRefund platform config moment.endings moment.draw moment.now operation
        state.connection state.store
      (⟨ended.2.1,ended.2.2⟩,answerOf triggerRefund ended.1)
  else (state,unknownToolError)

/-- The arguments or the business are at fault. Only -32603 blames the server. -/
def Answer.refuses : Answer → Bool
  | .result _ _ isError => isError
  | .error code _ _ => code ≠ internalError

theorem answerOf_refuses {tool : Str} {ended : Except Failure Payload}
    (refused : (answerOf tool ended).refuses = true) :
    ∃ failure, ended = .error failure ∧ failure.isDomain = true := by
  cases ended with
  | ok payload => cases refused
  | error failure =>
    cases failure with
    | domainError code message details => exact ⟨_,rfl,rfl⟩
    | _ => exact absurd refused (by simp [answerOf,internalErrorOf,Answer.refuses])

theorem issueRefund_error {draw : Draw} {customerId reason : Str} {amount : Int} {store : Store}
    {failure : Failure} (refused : (issueRefund platform draw customerId amount reason store).1 =
      .error failure) :
    (issueRefund platform draw customerId amount reason store).2 = store := by
  apply issueRefund_refused
  rintro ⟨customer,known,active,covered⟩
  rw [issueRefund_issued platform draw customerId amount reason store customer known active
    covered] at refused
  cases refused

theorem createRefund_refused {endings : Endings} {draw : Draw} {now : ℚ} {operation : Operation}
    {connection : Connection} {store : Store} {failure : Failure} (domain : failure.isDomain = true)
    (refused : (createRefund platform config endings draw now operation connection store).1 =
      .error failure) :
    (createRefund platform config endings draw now operation connection store).2 =
    (connection,store) := by
  rw [createRefund] at refused ⊢
  have undone := runOnce_domain platform config endings operation now
    (issueRefund platform draw operation.customerId operation.amount operation.reason)
      connection store domain
  generalize runOnce platform config endings operation now _ connection store =
    ended at refused undone ⊢
  obtain ⟨result,connection',store'⟩ := ended
  cases result with
  | error other =>
    simp only at refused undone ⊢
    obtain ⟨raised,left⟩ := undone (congrArg Except.error (Except.error.inj refused))
    rw [left,issueRefund_error platform raised]
  | ok value =>
    obtain ⟨payload,replayed⟩ := value
    cases payload with
    | dict payload => cases refused
    | _ =>
      obtain rfl := Except.error.inj refused
      cases domain

theorem handleCallTool_refused {moment : Moment} {call : Call} {state : State}
    (refused : (handleCallTool tables classes platform config wording moment call state).2.refuses =
      true) :
    (handleCallTool tables classes platform config wording moment call state).1 = state := by
  simp only [handleCallTool] at refused ⊢
  split_ifs at refused ⊢
  · cases recordInput classes (call.arguments.getD []) <;> rfl
  · cases valid : refundInput tables classes (call.arguments.getD []) with
    | error issues => rfl
    | ok operation =>
      simp only [valid] at refused ⊢
      obtain ⟨failure,raised,domain⟩ := answerOf_refuses refused
      rw [createRefund_refused platform config domain raised]
  · rfl

def attend (state : State) (exchange : Moment × Call) : State × Answer :=
  handleCallTool tables classes platform config wording exchange.1 exchange.2 state

/-- However the statements of the ledger end, a run without its refused calls leaves both tools in the same state
and gives every other call the same answer. -/
theorem refusals_change_nothing (state : State) (calls : List (Moment × Call)) :
    after (attend tables classes platform config wording) state
        ((heeded Answer.refuses (attend tables classes platform config wording) state calls).map
          Prod.fst) =
      after (attend tables classes platform config wording) state calls ∧
    answers (attend tables classes platform config wording) state
        ((heeded Answer.refuses (attend tables classes platform config wording) state calls).map
          Prod.fst) =
      (heeded Answer.refuses (attend tables classes platform config wording) state calls).map
        Prod.snd :=
  after_heeded (fun _ _ refused => handleCallTool_refused tables classes platform config wording
    refused) state calls

end Handler

end QuilrMcp.CustomerMcp.Server
