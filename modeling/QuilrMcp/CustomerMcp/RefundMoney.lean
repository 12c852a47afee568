import QuilrMcp.CustomerMcp.Schemas
import QuilrMcp.CustomerMcp.Store
import QuilrMcp.Library.JsonReading
import QuilrMcp.Library.Rendering

/-! Runs of refunds in one process. What the balances have lost is in the refunds, and every refund was
answered by one call, as long as no call that moves money has a reason that cannot be encoded and none
draws the id of an earlier refund. -/
namespace QuilrMcp.CustomerMcp.RefundMoney
open Library Library.Text

/-- A call with a valid amount. What `uuid4` and the clock give is written in ASCII. -/
structure Call where
  operation : Operation
  draw : Draw
  now : ℚ
  positive : 0 < operation.amount
  bounded : operation.amount ≤ 10000000
  drawn : ∀ code ∈ draw.uuidHex ++ draw.createdAt, code < 128

abbrev Answer := List (Str × Json.Value)

/-- The connection and the tables of one process, and how each call ended. -/
structure Process where
  connection : Connection
  store : Store
  answers : List (Except Failure Answer)

/-- The answer of a call that returned `replayed` as false. -/
def newAnswer : Except Failure Answer → Option Answer
  | .error _ => none
  | .ok answer =>
    match answer.lookup (lit "replayed") with
    | some (.bool false) => some answer
    | _ => none

def Process.newAnswers (process : Process) : List Answer := process.answers.filterMap newAnswer

def balance (store : Store) (customerId : Str) : Int :=
  match store.customers.lookup customerId with
  | some customer => customer.refundableBalance
  | none => 0

def refunded (store : Store) (customerId : Str) : Int :=
  (store.refunds.map (fun row => if row.2.customerId = customerId then row.2.amount else 0)).sum

section
variable (platform : Platform) (config : Config)

/-- No statement of the ledger fails. -/
def step (process : Process) (call : Call) : Process :=
  let ended :=
    createRefund platform config {} call.draw call.now call.operation
      process.connection process.store
  ⟨ended.2.1,ended.2.2,process.answers ++ [ended.1]⟩

def run (process : Process) (calls : List Call) : Process :=
  calls.foldl (step platform config) process

/-- The tables as seeded, and the ledger as it was found. -/
def Process.start (records : List Record) : Process := ⟨⟨records,none⟩,Store.start,[]⟩

/-- The answer is that of the refund. -/
def Reports (row : Str × Refund) (answer : Answer) : Prop :=
  row.1 = row.2.refundId ∧ ∃ remaining,
    answer = Dict.assign (lit "replayed") (.bool false) (refundPayload platform row.2 remaining)

/-- What each balance has lost is refunded, no balance is negative, and the refunds are those answered. -/
structure Conserved (process : Process) : Prop where
  kept : ∀ customerId, balance Store.start customerId = balance process.store customerId +
    refunded process.store customerId
  covered : ∀ customerId, 0 ≤ balance process.store customerId
  answered : ∃ answers, answers.Perm process.newAnswers ∧
    List.Forall₂ (Reports platform) process.store.refunds answers

/-- A call that gets to move money has a reason without lone surrogates and draws a new id. -/
def Steady (process : Process) (call : Call) : Prop :=
  Debits platform config {} call.now call.operation process.connection process.store →
    (∀ code ∈ call.operation.reason, isSurrogate code = false) ∧
    process.store.refunds.lookup call.draw.refundId = none

def SteadyRun : Process → List Call → Prop
  | _, [] => True
  | process, call::calls => Steady platform config process call ∧
      SteadyRun (step platform config process call) calls

/-- The calls that move money draw new ids. -/
def FreshRun : Process → List Call → Prop
  | _, [] => True
  | process, call::calls =>
    (Debits platform config {} call.now call.operation process.connection process.store →
      process.store.refunds.lookup call.draw.refundId = none) ∧
      FreshRun (step platform config process call) calls

end

abbrev Scalar (text : Str) : Prop := ∀ code ∈ text, isSurrogate code = false

theorem scalar_ascii {text : Str} (ascii : ∀ code ∈ text, code < 128) : Scalar text :=
  fun code member => Json.scalar_small (Nat.lt_trans (ascii code member) (by decide))

theorem amountText_float {cents : Int} (positive : 0 ≤ cents) :
    Json.IsFloatText (amountText cents) := by
  have digit (value : Nat) : Json.isDigit (48 + value % 10) = true := by
    simp only [Json.isDigit,Bool.and_eq_true,decide_eq_true_eq]
    omega
  have shape : amountText cents =
      Json.natText (cents.natAbs / 100) ++ [46,48 + cents.natAbs / 10 % 10,48 +
        cents.natAbs % 10] := by
    rw [amountText,if_neg (by omega),List.nil_append]
  obtain ⟨integer,unsigned⟩ := Json.scanInteger_natText (cents.natAbs / 100)
    [46,48 + cents.natAbs / 10 % 10,48 + cents.natAbs % 10] (by rintro code ⟨⟩; rfl)
  have fraction : Json.scanFraction [46,48 + cents.natAbs / 10 % 10,48 + cents.natAbs % 10] =
      some ([46,48 + cents.natAbs / 10 % 10,48 + cents.natAbs % 10],[]) := by
    simp [Json.scanFraction,digit]
  have positive' : ((Json.natText (cents.natAbs / 100) ++ [46,48 + cents.natAbs / 10 % 10,48 +
    cents.natAbs % 10]).head? == some 45) = false :=
    beq_eq_false_iff_ne.mpr unsigned
  refine ⟨⟨false,Json.natText (cents.natAbs / 100),[46,48 + cents.natAbs / 10 % 10,48 +
    cents.natAbs % 10],[]⟩,?_,rfl⟩
  rw [shape]
  simp only [Json.scanNumber,positive',Bool.false_eq_true,if_false,integer,fraction,
    Option.getD_some]
  rfl

section
variable (platform : Platform)

theorem money_scalar {cents : Int} (positive : 0 ≤ cents) (style : Json.Style) :
    Scalar (Json.dumps style (money platform cents)) := by
  rw [money,Json.dumps]
  rcases platform.format.settled _
    (amountText_float positive) with infinite | infinite | ⟨numeral,_⟩
  · rw [infinite]
    decide
  · rw [infinite]
    decide
  · exact scalar_ascii (fun code member => (Json.floatText_printed _ numeral code member).2)

theorem fingerprint_iff (customerId reason : Str) {amount : Int} (positive : 0 ≤ amount) :
    (∃ print, fingerprint platform customerId amount reason = .ok print) ↔ Scalar customerId ∧
    Scalar reason := by
  have amounts : Scalar (amountText amount) :=
    scalar_ascii (fun code member =>
      (Json.floatText_printed _ (amountText_float positive) code member).2)
  have material := Json.dumps_dict_scalar ⟨true,false⟩ rfl [(lit "amount",.str (amountText amount)),
    (lit "customer_id",.str customerId),(lit "reason",.str reason)]
  simp only [List.forall_mem_cons,Json.dumps,Json.writeString_scalar ⟨true,false⟩ rfl] at material
  have bound : (Encoding.encodeUtf8
    (Json.dumps ⟨true,false⟩ (.dict [(lit "amount",.str (amountText amount)),
      (lit "customer_id",.str customerId),(lit "reason",.str reason)]))).isSome ↔
      Scalar customerId ∧ Scalar reason := by
    rw [Encoding.encodeUtf8_isSome,Json.dumps,material]
    exact ⟨fun all => ⟨all.2.1.2,all.2.2.1.2⟩,fun both => ⟨⟨by decide,amounts⟩,⟨by decide,both.1⟩,
      ⟨by decide,both.2⟩,List.forall_mem_nil _⟩⟩
  rw [← bound,fingerprint]
  cases printed : Encoding.encodeUtf8
    (Json.dumps ⟨true,false⟩ (.dict [(lit "amount",.str (amountText amount)),
      (lit "customer_id",.str customerId),(lit "reason",.str reason)])) with
  | none => simp [encode,printed,Except.map]
  | some bytes => simp [encode,printed,Except.map]

theorem print_scalar {customerId reason print : Str} {amount : Int}
    (printed : fingerprint platform customerId amount reason = .ok print) : Scalar print := by
  rw [fingerprint] at printed
  generalize encode _ = encoded at printed
  cases encoded with
  | error failure => contradiction
  | ok bytes =>
    cases printed
    exact scalar_ascii (platform.hexText bytes)

theorem refundId_scalar (call : Call) : Scalar call.draw.refundId := by
  apply scalar_ascii
  intro code member
  rcases List.mem_append.mp member with name | digit
  · have ascii : ∀ code ∈ lit "RFND-", code < 128 := by decide
    exact ascii code name
  · obtain ⟨origin,taken,rfl⟩ := List.mem_map.mp digit
    have small := call.drawn origin (List.mem_append_left _ (List.mem_of_mem_take taken))
    rw [upper]
    split_ifs <;> omega

/-- Once a refund is issued its record can be kept exactly where the reason can be encoded. -/
theorem records_iff (call : Call) (known : Scalar call.operation.customerId) (key : Str)
    (keyed : operationKey platform call.operation = .ok key)
    (bound : (Encoding.encodeUtf8 key).isSome) (remaining : Int) (positive : 0 ≤ remaining) :
    Records platform {} call.operation (.dict (refundPayload platform
      (call.draw.refund call.operation.customerId call.operation.amount call.operation.reason)
        remaining)) ↔
      Scalar call.operation.reason := by
  have prints := fingerprint_iff platform call.operation.customerId call.operation.reason
    (Int.le_of_lt call.positive)
  constructor
  · intro records
    obtain ⟨_,print,_,printed,_⟩ := records.bound
    exact (prints.mp ⟨print,printed⟩).2
  · intro scalar
    obtain ⟨print,printed⟩ := prints.mpr ⟨known,scalar⟩
    refine ⟨⟨key,print,keyed,printed,?_⟩,rfl,rfl⟩
    have hex : Scalar call.draw.refundId := refundId_scalar call
    have created : Scalar call.draw.createdAt :=
      scalar_ascii (fun code member => call.drawn code (List.mem_append_right _ member))
    have money_ := money_scalar platform (Int.le_of_lt call.positive) ⟨true,false⟩
    have rest := money_scalar platform positive ⟨true,false⟩
    have response := Json.dumps_dict_scalar ⟨true,false⟩ rfl (refundPayload platform
      (call.draw.refund call.operation.customerId call.operation.amount call.operation.reason)
        remaining)
    rw [Encoding.encodeUtf8_isSome,List.forall_mem_append,List.forall_mem_append,
      List.forall_mem_append,dumpResponse,response]
    refine ⟨⟨⟨(Encoding.encodeUtf8_isSome key).mp bound,known⟩,print_scalar platform printed⟩,?_⟩
    have text (value : Str) (scalars : Scalar value) : Scalar
      (Json.dumps ⟨true,false⟩ (.str value)) :=
      (Json.writeString_scalar ⟨true,false⟩ rfl value).mpr scalars
    simp only [refundPayload,Draw.refund,List.forall_mem_cons]
    exact ⟨⟨by decide,text _ hex⟩,⟨by decide,text _ known⟩,⟨by decide,money_⟩,
      ⟨by decide,text _ scalar⟩,
      ⟨by decide,text _ created⟩,⟨by decide,rest⟩,⟨by decide,text _ (by decide)⟩,
      List.forall_mem_nil _⟩

section
variable (config : Config) (endings : Endings) (draw : Draw) (now : ℚ) (operation : Operation)
    (connection : Connection)
  (store : Store)

theorem createRefund_answer {payload : List (Str × Json.Value)}
    (returned : (runOnce platform config endings operation now
      (issueRefund platform draw operation.customerId operation.amount operation.reason) connection
        store).1 = .ok (.dict payload,false)) :
    newAnswer (createRefund platform config endings draw now operation connection store).1 =
      some (Dict.assign (lit "replayed") (.bool false) payload) := by
  rw [createRefund]
  generalize runOnce platform config endings operation now _ connection store = ended at returned
  obtain ⟨result,after,final⟩ := ended
  obtain rfl := returned
  simp only [newAnswer,Dict.lookup_assign]

theorem createRefund_new {answer : Answer}
    (new : newAnswer (createRefund platform config endings draw now operation connection store).1 =
      some answer) :
    ∃ payload, (runOnce platform config endings operation now
      (issueRefund platform draw operation.customerId operation.amount operation.reason) connection
        store).1 = .ok (payload,false) := by
  rw [createRefund] at new
  generalize runOnce platform config endings operation now _ connection store = ended at new
  obtain ⟨result,after,final⟩ := ended
  cases result with
  | error failure => contradiction
  | ok pair =>
    obtain ⟨value,replayed⟩ := pair
    cases replayed with
    | false => exact ⟨value,rfl⟩
    | true => cases value <;> simp [newAnswer] at new

end

/-- What holds of a process after any calls. -/
structure Sound (process : Process) : Prop where
  idle : process.connection.pending = none
  known : ∀ customerId customer, process.store.customers.lookup customerId = some customer →
    Scalar customerId ∧ 0 ≤ customer.refundableBalance
  rows : ∀ row ∈ process.store.refunds, 0 < row.2.amount

variable (config : Config)

/-- A call leaves the tables and the new answers alone, or it debits a customer and issues a refund, which
is answered where its reason can be encoded. -/
inductive Moves (process : Process) (call : Call) (next : Process) : Prop
  | still (unpaid : ¬ Debits platform config {} call.now call.operation process.connection
      process.store)
      (store : next.store = process.store) (answers : next.newAnswers = process.newAnswers)
  | paid (debits : Debits platform config {} call.now call.operation process.connection
      process.store)
      (customer : Customer) (known : process.store.customers.lookup call.operation.customerId =
        some customer)
      (covered : call.operation.amount ≤ customer.refundableBalance)
      (store : next.store = ⟨Dict.assign call.operation.customerId
          {customer with refundableBalance := customer.refundableBalance - call.operation.amount}
            process.store.customers,
        Dict.assign call.draw.refundId
          (call.draw.refund call.operation.customerId call.operation.amount call.operation.reason)
          process.store.refunds⟩)
      (answered : Scalar call.operation.reason → ∃ answer,
        Reports platform (call.draw.refundId,
          call.draw.refund call.operation.customerId call.operation.amount call.operation.reason)
          answer ∧ next.newAnswers = process.newAnswers ++ [answer])
      (unanswered : ¬ Scalar call.operation.reason → next.newAnswers = process.newAnswers)

theorem step_answers (process : Process) (call : Call) :
    (step platform config process call).newAnswers =
    process.newAnswers ++
      (newAnswer (createRefund platform config {} call.draw call.now call.operation
        process.connection
      process.store).1).toList := by
  rw [Process.newAnswers,step,List.filterMap_append,Process.newAnswers]
  generalize (createRefund platform config {} call.draw call.now call.operation process.connection
    process.store).1 = ended
  cases new : newAnswer ended <;> simp [new]

theorem step_still (process : Process) (call : Call)
    (unreturned : ∀ payload, (runOnce platform config {} call.operation call.now
      (issueRefund platform call.draw call.operation.customerId call.operation.amount
        call.operation.reason)
      process.connection process.store).1 ≠ .ok (payload,false)) :
    (step platform config process call).newAnswers = process.newAnswers := by
  rw [step_answers]
  cases new : newAnswer (createRefund platform config {} call.draw call.now call.operation
    process.connection process.store).1 with
  | none => exact List.append_nil _
  | some answer =>
    obtain ⟨payload,returned⟩ :=
      createRefund_new platform config {} call.draw call.now call.operation _ _ new
    exact absurd returned (unreturned payload)

theorem step_moves {process : Process} (sound : Sound process) (call : Call) :
    Moves platform config process call (step platform config process call) := by
  have after : (step platform config process call).store = _ :=
    createRefund_state platform config {} call.draw call.now call.operation
      process.connection process.store
  by_cases debits : Debits platform config {} call.now call.operation
    process.connection process.store
  · obtain ⟨⟨key,reaches⟩,customer,known,active,covered⟩ := id debits
    have issued :=
      issueRefund_issued platform call.draw call.operation.customerId call.operation.amount
        call.operation.reason
      process.store customer known active covered
    have records :=
      records_iff platform call (sound.known _ customer known).1 key reaches.keyed reaches.bound
      (customer.refundableBalance - call.operation.amount) (by omega)
    have ended := runOnce_issued platform config {} call.operation call.now _ process.connection
      process.store _ key _ reaches issued
    refine .paid debits customer known covered ?_ ?_ ?_
    · rcases runOnce_state platform config {} call.operation call.now
          (issueRefund platform call.draw call.operation.customerId call.operation.amount
            call.operation.reason)
          process.connection process.store with ⟨_,state⟩ | ⟨stopped,_⟩
      · rw [after,state,issued]
      · exact absurd ⟨key,reaches⟩ stopped
    · intro scalar
      rcases ended with ⟨_,returned⟩ | ⟨unrecorded,_⟩
      · refine ⟨_,⟨rfl,customer.refundableBalance - call.operation.amount,rfl⟩,?_⟩
        rw [step_answers,createRefund_answer platform config {} call.draw call.now
          call.operation _ _ returned]
        rfl
      · exact absurd (records.mpr scalar) unrecorded
    · intro surrogate
      apply step_still
      intro payload returned
      rcases ended with ⟨recorded,_⟩ | ⟨_,failure,raised⟩
      · exact surrogate (records.mp recorded)
      · rw [raised] at returned
        contradiction
  · refine .still debits ?_ (step_still platform config process call ?_)
    · rw [after]
      rcases runOnce_state platform config {} call.operation call.now
          (issueRefund platform call.draw call.operation.customerId call.operation.amount
            call.operation.reason)
          process.connection process.store with ⟨reaches,state⟩ | ⟨_,state⟩
      · rw [state]
        exact issueRefund_refused _ _ _ _ _ _ (fun refundable => debits ⟨reaches,refundable⟩)
      · exact state
    · intro payload returned
      obtain ⟨reaches,issued⟩ :=
        runOnce_new platform config {} call.operation call.now _ process.connection process.store
          payload returned
      exact debits ⟨reaches,issueRefund_refundable issued⟩

theorem step_idle {process : Process} (idle : process.connection.pending = none) (call : Call) :
    (step platform config process call).connection.pending = none := by
  have after := runOnce_idle platform config call.operation call.now
    (issueRefund platform call.draw call.operation.customerId call.operation.amount
      call.operation.reason) process.connection
    process.store idle
  rw [step,createRefund]
  generalize runOnce platform config {} call.operation call.now _ process.connection process.store =
    ended at after
  obtain ⟨result,connection,final⟩ := ended
  cases result with
  | error failure => exact after
  | ok pair =>
    obtain ⟨value,replayed⟩ := pair
    cases value <;> exact after

theorem step_sound {process : Process} (sound : Sound process) (call : Call) :
    Sound (step platform config process call) := by
  refine ⟨step_idle platform config sound.idle call,?_,?_⟩
  · intro customerId customer' listed
    cases step_moves platform config sound call with
    | still _ store _ => exact sound.known customerId customer' (by rwa [← store])
    | paid _ customer known covered store _ _ =>
      rw [store] at listed
      by_cases same : customerId = call.operation.customerId
      · subst same
        rw [Dict.lookup_assign] at listed
        obtain rfl := Option.some.inj listed
        exact ⟨(sound.known _ customer known).1,by dsimp only; omega⟩
      · rw [Dict.lookup_assign_other _ _ _ _ same] at listed
        exact sound.known customerId customer' listed
  · intro row member
    cases step_moves platform config sound call with
    | still _ store _ => exact sound.rows row (by rwa [← store])
    | paid _ customer known covered store _ _ =>
      rw [store] at member
      rcases Dict.mem_assign member with rfl | before
      · exact call.positive
      · exact sound.rows row before

def owed (store : Store) (customerId : Str) : Int :=
  balance Store.start customerId - balance store customerId - refunded store customerId

def share (refund : Refund) (customerId : Str) : Int :=
  if refund.customerId = customerId then refund.amount else 0

theorem refunded_row (front back : List (Str × Refund)) (row : Str × Refund)
    (customers : List (Str × Customer)) (customerId : Str) :
    refunded ⟨customers,front ++ row::back⟩ customerId =
      refunded ⟨customers,front ++ back⟩ customerId + share row.2 customerId := by
  simp only [refunded,share,List.map_append,List.map_cons,List.sum_append,List.sum_cons]
  ring

theorem balance_debited {store : Store} {customer : Customer} {payer : Str}
    (known : store.customers.lookup payer = some customer) (amount : Int)
    (refunds : List (Str × Refund)) (customerId : Str) :
    balance ⟨Dict.assign payer {customer with refundableBalance := customer.refundableBalance -
      amount} store.customers,refunds⟩ customerId =
      balance store customerId - if payer = customerId then amount else 0 := by
  by_cases same : payer = customerId
  · subst same
    rw [balance,balance,Dict.lookup_assign,known,if_pos rfl]
  · rw [balance,balance,Dict.lookup_assign_other _ _ _ _ (Ne.symm same),if_neg same,Int.sub_zero]

/-- A refund under a new id leaves what is owed as it is; one in the place of another adds that one to it. -/
theorem owed_paid {store : Store} {customer : Customer} {payer : Str}
    (known : store.customers.lookup payer = some customer) (refund : Refund)
    (paid : refund.customerId = payer) (refundId customerId : Str) :
    owed ⟨Dict.assign payer {customer with refundableBalance := customer.refundableBalance -
      refund.amount} store.customers,
        Dict.assign refundId refund store.refunds⟩ customerId =
      owed store customerId + match store.refunds.lookup refundId with
        | some old => share old customerId
        | none => 0 := by
  have debited :=
    balance_debited known refund.amount (Dict.assign refundId refund store.refunds) customerId
  have own : share refund customerId = if payer = customerId then refund.amount else 0 := by
    rw [share,paid]
  rw [owed,debited,owed]
  cases drawn : store.refunds.lookup refundId with
  | none =>
    have added :=
      refunded_row store.refunds [] (refundId,refund)
        (Dict.assign payer {customer with refundableBalance :=
      customer.refundableBalance - refund.amount} store.customers) customerId
    rw [List.append_nil,own] at added
    rw [Dict.assign_absent _ _ _ drawn,added]
    simp only [refunded]
    omega
  | some old =>
    obtain ⟨front,back,shape,assigned⟩ := Dict.assign_split drawn
    have added :=
      refunded_row front back (refundId,refund)
        (Dict.assign payer {customer with refundableBalance :=
      customer.refundableBalance - refund.amount} store.customers) customerId
    have before := refunded_row front back (refundId,old) store.customers customerId
    rw [own] at added
    rw [← shape] at before
    rw [assigned,added]
    simp only [refunded] at before ⊢
    omega

/-- Nothing is owed, and the new answers are those of the refunds. -/
structure Settled (process : Process) : Prop where
  owed : ∀ customerId, owed process.store customerId = 0
  answered : List.Forall₂ (Reports platform) process.store.refunds process.newAnswers

/-- Something is owed, or a refund has no answer. -/
structure Broken (process : Process) : Prop where
  owed : ∀ customerId, 0 ≤ owed process.store customerId
  lost : (∃ customerId, 0 < RefundMoney.owed process.store customerId) ∨
    process.newAnswers.length < process.store.refunds.length

theorem step_settled {process : Process} (sound : Sound process)
    (settled : Settled platform process) (call : Call)
    (steady : Steady platform config process call) :
    Settled platform (step platform config process call) := by
  cases step_moves platform config sound call with
  | still _ store answers =>
    exact ⟨by rw [store]; exact settled.owed,by rw [store,answers]; exact settled.answered⟩
  | paid debits customer known covered store answered _ =>
    obtain ⟨scalar,fresh⟩ := steady debits
    obtain ⟨answer,reports,answers⟩ := answered scalar
    constructor
    · intro customerId
      have paid :=
        owed_paid known (call.draw.refund call.operation.customerId call.operation.amount
          call.operation.reason) rfl
        call.draw.refundId customerId
      rw [fresh,settled.owed customerId] at paid
      rw [store]
      exact paid
    · rw [store,answers,Dict.assign_absent _ _ _ fresh]
      exact List.rel_append settled.answered (.cons reports .nil)

/-- What a paid refund adds to what is owed: the refund whose id it takes. -/
theorem step_owed {process : Process} (sound : Sound process) (call : Call) (customerId : Str) :
    owed process.store customerId ≤ owed (step platform config process call).store customerId ∧
      (Debits platform config {} call.now call.operation process.connection process.store →
        ∀ old, process.store.refunds.lookup call.draw.refundId = some old →
        old.customerId = customerId →
        owed process.store customerId < owed (step platform config process call).store
          customerId) := by
  cases step_moves platform config sound call with
  | still unpaid store _ =>
    rw [store]
    exact ⟨Int.le_refl _,fun debits => absurd debits unpaid⟩
  | paid debits customer known covered store _ _ =>
    have paid :=
      owed_paid known (call.draw.refund call.operation.customerId call.operation.amount
        call.operation.reason) rfl
      call.draw.refundId customerId
    rw [Draw.refund] at paid
    rw [store,Draw.refund,paid]
    cases drawn : process.store.refunds.lookup call.draw.refundId with
    | none => exact ⟨Int.le_of_eq (Int.add_zero _).symm,fun _ _ some_ => by contradiction⟩
    | some old =>
      obtain ⟨front,back,shape,_⟩ := Dict.assign_split drawn
      have positive : 0 < old.amount := sound.rows (call.draw.refundId,old) (by rw [shape]; simp)
      simp only [share]
      refine ⟨by split_ifs <;> omega,fun _ other same owner => ?_⟩
      obtain rfl := Option.some.inj same
      rw [if_pos owner]
      omega

/-- A refund under a new id is one more row; an answer more there may be or not. -/
theorem step_lengths {process : Process} (sound : Sound process) (call : Call)
    (fresh : process.store.refunds.lookup call.draw.refundId = none)
    (debits : Debits platform config {} call.now call.operation process.connection process.store) :
    (step platform config process call).store.refunds.length = process.store.refunds.length + 1 ∧
      (step platform config process call).newAnswers.length ≤ process.newAnswers.length + 1 ∧
      (¬ Scalar call.operation.reason →
        (step platform config process call).newAnswers = process.newAnswers) := by
  cases step_moves platform config sound call with
  | still unpaid _ _ => exact absurd debits unpaid
  | paid _ customer known covered store answered unanswered =>
    refine ⟨by rw [store,Dict.assign_absent _ _ _ fresh,List.length_append]; rfl,?_,unanswered⟩
    by_cases scalar : Scalar call.operation.reason
    · obtain ⟨answer,_,answers⟩ := answered scalar
      rw [answers,List.length_append]
      exact Nat.le_refl _
    · rw [unanswered scalar]
      exact Nat.le_succ _

theorem step_broken {process : Process} (sound : Sound process) (broken : Broken process)
    (call : Call) :
    Broken (step platform config process call) := by
  have grows := step_owed platform config sound call
  refine ⟨fun customerId => Int.le_trans (broken.owed customerId) (grows customerId).1,?_⟩
  rcases broken.lost with ⟨customerId,lost⟩ | fewer
  · exact Or.inl ⟨customerId,Int.lt_of_lt_of_le lost (grows customerId).1⟩
  · by_cases debits : Debits platform config {} call.now call.operation
      process.connection process.store
    · cases drawn : process.store.refunds.lookup call.draw.refundId with
      | none =>
        obtain ⟨rows,answers,_⟩ := step_lengths platform config sound call drawn debits
        right
        omega
      | some old =>
        exact Or.inl ⟨old.customerId,Int.lt_of_le_of_lt (broken.owed _)
          ((grows _).2 debits old drawn rfl)⟩
    · cases step_moves platform config sound call with
      | still _ store answers => exact Or.inr (by rwa [store,answers])
      | paid paid _ _ _ _ _ _ => exact absurd paid debits

theorem step_unsteady {process : Process} (sound : Sound process)
    (settled : Settled platform process) (call : Call)
    (unsteady : ¬ Steady platform config process call) :
    Broken (step platform config process call) := by
  have grows := step_owed platform config sound call
  obtain ⟨debits,defect⟩ := Classical.not_imp.mp unsteady
  refine ⟨fun customerId => Int.le_trans (Int.le_of_eq (settled.owed customerId).symm)
    (grows customerId).1,?_⟩
  cases drawn : process.store.refunds.lookup call.draw.refundId with
  | none =>
    have surrogate : ¬ Scalar call.operation.reason := fun scalar => defect ⟨scalar,drawn⟩
    obtain ⟨rows,_,answers⟩ := step_lengths platform config sound call drawn debits
    right
    rw [answers surrogate,rows,settled.answered.length_eq]
    exact Nat.lt_succ_self _
  | some old =>
    left
    refine ⟨old.customerId,Int.lt_of_le_of_lt (Int.le_of_eq (settled.owed _).symm)
      ((grows _).2 debits old drawn rfl)⟩

theorem run_broken {process : Process} (sound : Sound process) (broken : Broken process)
    (calls : List Call) :
    Broken (run platform config process calls) := by
  induction calls generalizing process with
  | nil => exact broken
  | cons call calls ih =>
    exact ih (step_sound platform config sound call) (step_broken platform config sound broken call)

theorem run_sound {process : Process} (sound : Sound process) (calls : List Call) :
    Sound (run platform config process calls) := by
  induction calls generalizing process with
  | nil => exact sound
  | cons call calls ih => exact ih (step_sound platform config sound call)

theorem run_settled {process : Process} (sound : Sound process) (settled : Settled platform process)
    (calls : List Call) :
    (SteadyRun platform config process calls →
      Settled platform (run platform config process calls)) ∧
      (¬ SteadyRun platform config process calls → Broken (run platform config process calls)) := by
  induction calls generalizing process with
  | nil => exact ⟨fun _ => settled,fun unsteady => absurd trivial unsteady⟩
  | cons call calls ih =>
    have sound' := step_sound platform config sound call
    by_cases steady : Steady platform config process call
    · obtain ⟨whole,broken⟩ := ih sound' (step_settled platform config sound settled call steady)
      exact ⟨fun run => whole run.2,fun unsteady => broken (fun run => unsteady ⟨steady,run⟩)⟩
    · have broken := step_unsteady platform config sound settled call steady
      exact ⟨fun run => absurd run.1 steady,fun _ => run_broken platform config sound' broken calls⟩

theorem start_sound (records : List Record) : Sound (Process.start records) := by
  refine ⟨rfl,fun customerId customer known => ?_,List.forall_mem_nil _⟩
  have seeded : ∀ row ∈ seed, Scalar row.1 ∧ 0 ≤ row.2.refundableBalance := by decide
  obtain ⟨front,back,shape,_⟩ := Dict.assign_split known
  exact seeded (customerId,customer)
    (by rw [show seed = front ++ (customerId,customer)::back from shape]; simp)

theorem start_settled (records : List Record) : Settled platform (Process.start records) := by
  refine ⟨fun customerId => ?_,.nil⟩
  rw [owed,show (Process.start records).store = Store.start from rfl,
    show refunded Store.start customerId = 0 from rfl]
  omega

theorem broken_unconserved {process : Process} (broken : Broken process) :
    ¬ Conserved platform process := by
  intro conserved
  rcases broken.lost with ⟨customerId,lost⟩ | fewer
  · have kept := conserved.kept customerId
    rw [owed] at lost
    omega
  · obtain ⟨answers,same,paired⟩ := conserved.answered
    have lengths := paired.length_eq
    rw [same.length_eq] at lengths
    omega

/-- The money of the balances is in the refunds, and each refund was returned by one call as new, exactly
where each call that moves money has a reason that can be encoded and a new id. -/
theorem refunds_conserved_iff (records : List Record) (calls : List Call) :
    Conserved platform (run platform config (.start records) calls) ↔
    SteadyRun platform config (.start records) calls := by
  have sound := run_sound platform config (start_sound records) calls
  obtain ⟨whole,broken⟩ :=
    run_settled platform config (start_sound records) (start_settled platform records) calls
  constructor
  · intro conserved
    by_contra unsteady
    exact broken_unconserved platform (broken unsteady) conserved
  · intro steady
    have settled := whole steady
    refine ⟨fun customerId => ?_,fun customerId => ?_,_,List.Perm.refl _,settled.answered⟩
    · have nothing := settled.owed customerId
      rw [owed] at nothing
      omega
    · rw [balance]
      split
      · rename_i customer known
        exact (sound.known customerId customer known).2
      · exact Int.le_refl 0

/-- The call is made for arguments that the schema has accepted. -/
def Validated (tables : Unicode.Tables) (classes : Unicode.Classes) (call : Call) : Prop :=
  ∃ arguments, Schemas.validate tables classes arguments = .ok call.operation

theorem steadyRun_fresh {calls : List Call} (scalar : ∀ call ∈ calls, Scalar call.operation.reason)
    (process : Process) :
    SteadyRun platform config process calls ↔ FreshRun platform config process calls := by
  induction calls generalizing process with
  | nil => exact Iff.rfl
  | cons call calls ih =>
    obtain ⟨first,later⟩ := List.forall_mem_cons.mp scalar
    rw [SteadyRun,FreshRun,ih later]
    apply and_congr_left'
    exact ⟨fun steady debits => (steady debits).2,fun fresh debits => ⟨first,fresh debits⟩⟩

/-- Ids of which no two are the same are new. -/
theorem freshRun_distinct {process : Process} (sound : Sound process) {calls : List Call}
    (distinct : (calls.map (·.draw.refundId)).Nodup)
    (new : ∀ call ∈ calls, process.store.refunds.lookup call.draw.refundId = none) :
    FreshRun platform config process calls := by
  induction calls generalizing process with
  | nil => trivial
  | cons call calls ih =>
    obtain ⟨unused,distinct⟩ := List.nodup_cons.mp distinct
    obtain ⟨first,later⟩ := List.forall_mem_cons.mp new
    refine ⟨fun _ => first,ih (step_sound platform config sound call) distinct
      fun other member => ?_⟩
    cases step_moves platform config sound call with
    | still _ store _ =>
      rw [store]
      exact later other member
    | paid _ customer known covered store _ _ =>
      have apart : other.draw.refundId ≠ call.draw.refundId :=
        fun same => unused (List.mem_map.mpr ⟨other,member,same⟩)
      rw [store]
      exact (Dict.lookup_assign_other _ _ _ _ apart).trans (later other member)

/-- Whatever validated requests come in, the money of the balances is in the refunds and each refund was returned by one
call as new, exactly where no call that moves money draws the id of an earlier refund. -/
theorem validated_conserved_iff (tables : Unicode.Tables) (classes : Unicode.Classes)
    (records : List Record) (calls : List Call)
    (validated : ∀ call ∈ calls, Validated tables classes call) :
    Conserved platform (run platform config (.start records) calls) ↔
    FreshRun platform config (.start records) calls := by
  have scalar : ∀ call ∈ calls, Scalar call.operation.reason := by
    intro call member code inside
    obtain ⟨arguments,valid⟩ := validated call member
    exact ((Schemas.validate_valid tables classes valid).reason code inside).2
  rw [refunds_conserved_iff,steadyRun_fresh platform config scalar]

end

/-- A refund to Ada Lovelace, with the digits that `uuid4` gives. -/
def refundCall (key : Option Str) (digits : String) (amount : Int) (positive : 0 < amount)
    (bounded : amount ≤ 10000000) (drawn : ∀ code ∈ lit digits ++ lit "2026-01-05T10:00:00+00:00",
      code < 128) : Call where
  operation := ⟨lit "CUST-00042",amount,lit "Duplicate charge",key⟩
  draw := ⟨lit digits,lit "2026-01-05T10:00:00+00:00"⟩
  now := 0
  positive := positive
  bounded := bounded
  drawn := drawn

/-- A refund of 49.99, its replay, more than she has paid, and a refund without a key. -/
def fourCalls : List Call :=
  [refundCall (some (lit "first")) "0f8fad5bd9cb469fa16570867728950e" 4999 (by decide)
    (by decide) (by decide),
    refundCall (some (lit "first")) "7c9e6679742540de944be07fc1f90ae7" 4999 (by decide)
      (by decide) (by decide),
    refundCall (some (lit "large")) "16fd2706cc0b4d6f86d9ae3bf8b3e4a1" 10000000 (by decide)
      (by decide) (by decide),
    refundCall none "886313e13b8a53729b900c9aee199e5d" 1000 (by decide) (by decide) (by decide)]

/-- Two refunds under keys of their own, for which `uuid4` gives the same digits. -/
def sharedId : List Call :=
  [refundCall (some (lit "first")) "0f8fad5bd9cb469fa16570867728950e" 4999 (by decide)
    (by decide) (by decide),
    refundCall (some (lit "second")) "0f8fad5bd9cb469fa16570867728950e" 4999 (by decide)
      (by decide) (by decide)]

private theorem refundCall_validated {key : Option Str} {digits : String} {amount : Int}
    {positive : 0 < amount} {bounded : amount ≤ 10000000}
    {drawn : ∀ code ∈ lit digits ++ lit "2026-01-05T10:00:00+00:00", code < 128}
    (characters : ∀ code ∈ lit "CUST-00042" ++ lit "Duplicate charge" ++ key.getD [],
      code < 0x110000)
    (cents : Schemas.amountField (amount / 100) = .ok amount)
    (supplied : Schemas.idempotencyKeyField Unicode.ascii key = .ok key) :
    Validated Unicode.ascii Unicode.asciiClasses
      (refundCall key digits amount positive bounded drawn) := by
  have customer : Schemas.customerIdField Unicode.asciiClasses (lit "CUST-00042") =
    .ok (lit "CUST-00042") := by decide
  have reason : Schemas.reasonField Unicode.ascii (lit "Duplicate charge") =
    .ok (lit "Duplicate charge") := by decide
  refine ⟨⟨lit "CUST-00042",amount / 100,lit "Duplicate charge",key,characters⟩,?_⟩
  simp only [Schemas.validate,customer,cents,reason,supplied,refundCall]

private theorem fourCalls_validated :
    ∀ call ∈ fourCalls, Validated Unicode.ascii Unicode.asciiClasses call := by
  simp only [fourCalls,List.forall_mem_cons]
  refine ⟨refundCall_validated ?_ ?_ ?_,refundCall_validated ?_ ?_ ?_,refundCall_validated ?_ ?_ ?_,
    refundCall_validated ?_ ?_ ?_,List.forall_mem_nil _⟩
  all_goals decide +kernel

private theorem sharedId_validated :
    ∀ call ∈ sharedId, Validated Unicode.ascii Unicode.asciiClasses call := by
  simp only [sharedId,List.forall_mem_cons]
  refine ⟨refundCall_validated ?_ ?_ ?_,refundCall_validated ?_ ?_ ?_,List.forall_mem_nil _⟩
  all_goals decide +kernel

theorem validated_conserved_four :
    (run samplePlatform defaultConfig (.start []) fourCalls).newAnswers.length = 2 ∧
    Conserved samplePlatform (run samplePlatform defaultConfig (.start []) fourCalls) := by
  have fresh : FreshRun samplePlatform defaultConfig (.start []) fourCalls :=
    freshRun_distinct samplePlatform defaultConfig (start_sound []) (by decide +kernel)
      (fun _ _ => rfl)
  exact ⟨by decide +kernel,(validated_conserved_iff samplePlatform defaultConfig Unicode.ascii Unicode.asciiClasses []
    fourCalls fourCalls_validated).mpr fresh⟩

/-- The second refund takes the place of the first, whose money is then in no refund. -/
theorem shared_id_unconserved :
    ¬ ∀ (platform : Platform) (config : Config) (tables : Unicode.Tables)
    (classes : Unicode.Classes) (records : List Record) (calls : List Call),
    (∀ call ∈ calls, Validated tables classes call) →
    Conserved platform (run platform config (.start records) calls) := by
  intro conserved
  have whole := conserved samplePlatform defaultConfig Unicode.ascii Unicode.asciiClasses
    [] sharedId sharedId_validated
  have kept := whole.kept (lit "CUST-00042")
  revert kept
  decide +kernel

end QuilrMcp.CustomerMcp.RefundMoney
