import QuilrMcp.CustomerMcp.Ledger

/-! The customers and the refunds, which live in the memory of the process. Amounts are
whole cents, so rounding to cents changes nothing. -/
namespace QuilrMcp.CustomerMcp
open Library Library.Text

inductive Status
  | active
  | frozen
  | closed
  deriving DecidableEq

def Status.text : Status → Str
  | .active => lit "active"
  | .frozen => lit "frozen"
  | .closed => lit "closed"

structure Customer where
  customerId : Str
  name : Str
  email : Str
  status : Status
  lifetimeSpend : Int
  refundableBalance : Int
  signedUp : Str
  deriving DecidableEq

structure Refund where
  refundId : Str
  customerId : Str
  amount : Int
  reason : Str
  createdAt : Str
  deriving DecidableEq

structure Store where
  customers : List (Str × Customer)
  refunds : List (Str × Refund)
  deriving DecidableEq

/-- Fixtures picked so each refusal path has a customer that triggers it. -/
def seed : List (Str × Customer) :=
  [⟨lit "CUST-00042",lit "Ada Lovelace",lit "ada@example.com",.active,124000,32000,
      lit "2023-04-11"⟩,
    ⟨lit "CUST-00007",lit "Grace Hopper",lit "grace@example.com",.active,8999,0,lit "2024-01-30"⟩,
    ⟨lit "CUST-01337",lit "Alan Turing",lit "alan@example.com",.frozen,450000,120000,
      lit "2022-09-02"⟩,
    ⟨lit "CUST-99999",lit "Katherine Johnson",lit "katherine@example.com",.closed,1550,0,
      lit "2021-06-18"⟩].map
  (fun row => (row.customerId,row))

def Store.start : Store := ⟨seed,[]⟩

/-- A float of whole cents, as JSON writes it. -/
def money (platform : Platform) (cents : Int) : Json.Value :=
  .float (platform.format.text (amountText cents))

def customerNotFound (customerId : Str) : Failure :=
  .domainError (lit "customer_not_found") (lit "No customer exists with id " ++
    customerId ++ lit ".")
    [(lit "customer_id",.str customerId)]

def accountNotActive (customerId : Str) (status : Status) : Failure :=
  .domainError (lit "account_not_active")
    (lit "Cannot refund customer " ++ customerId ++ lit ": account status is '" ++
      status.text ++ lit "'.")
    [(lit "customer_id",.str customerId),(lit "status",.str status.text)]

def insufficientRefundableBalance (platform : Platform) (customerId : Str) (amount balance : Int) :
    Failure :=
  .domainError (lit "insufficient_refundable_balance")
    (lit "Refund of " ++ amountText amount ++ lit " exceeds the refundable balance of " ++
      amountText balance ++
      lit " for " ++ customerId ++ lit ".")
    [(lit "customer_id",.str customerId),(lit "requested",money platform amount),
      (lit "refundable_balance",money platform balance)]

def getCustomer (platform : Platform) (store : Store) (customerId : Str) :
    Except Failure (List (Str × Json.Value)) :=
  match store.customers.lookup customerId with
  | none => .error (customerNotFound customerId)
  | some customer =>
    .ok [(lit "customer_id",.str customer.customerId),(lit "name",.str customer.name),
      (lit "email",.str customer.email),(lit "status",.str customer.status.text),
      (lit "lifetime_spend",money platform customer.lifetimeSpend),
      (lit "refundable_balance",money platform customer.refundableBalance),
        (lit "signed_up",.str customer.signedUp)]

/-- What `uuid4().hex` and the clock gave for one refund. -/
structure Draw where
  uuidHex : Str
  createdAt : Str

def upper (code : Nat) : Nat := if 97 ≤ code ∧ code ≤ 122 then code - 32 else code

def Draw.refundId (draw : Draw) : Str := lit "RFND-" ++ (draw.uuidHex.take 12).map upper

def refundPayload (platform : Platform) (refund : Refund) (remaining : Int) :
    List (Str × Json.Value) :=
  [(lit "refund_id",.str refund.refundId),(lit "customer_id",.str refund.customerId),
    (lit "amount",money platform refund.amount),(lit "reason",.str refund.reason),
    (lit "created_at",.str refund.createdAt),
    (lit "remaining_refundable_balance",money platform remaining),(lit "status",.str (lit "issued"))]

def Draw.refund (draw : Draw) (customerId : Str) (amount : Int) (reason : Str) : Refund :=
  ⟨draw.refundId,customerId,amount,reason,draw.createdAt⟩

/-- The balance-moving half. -/
def issueRefund (platform : Platform) (draw : Draw) (customerId : Str) (amount : Int) (reason : Str)
    (store : Store) :
    Except Failure Json.Value × Store :=
  match store.customers.lookup customerId with
  | none => (.error (customerNotFound customerId),store)
  | some customer =>
    if customer.status ≠ .active then (.error (accountNotActive customerId customer.status),store)
    else if amount > customer.refundableBalance then
      (.error (insufficientRefundableBalance platform customerId amount customer.refundableBalance),
        store)
    else
      let refund := draw.refund customerId amount reason
      let remaining := customer.refundableBalance - amount
      (.ok (.dict (refundPayload platform refund remaining)),
        ⟨Dict.assign customerId {customer with refundableBalance := remaining} store.customers,
          Dict.assign refund.refundId refund store.refunds⟩)

def createRefund (platform : Platform) (config : Config) (endings : Endings) (draw : Draw) (now : ℚ)
    (operation : Operation) (connection : Connection) (store : Store) :
    Except Failure (List (Str × Json.Value)) × Connection × Store :=
  match runOnce platform config endings operation now
      (issueRefund platform draw operation.customerId operation.amount operation.reason)
        connection store with
  | (.error failure,connection,store) => (.error failure,connection,store)
  | (.ok (.dict payload,replayed),connection,store) =>
    (.ok (Dict.assign (lit "replayed") (.bool replayed) payload),connection,store)
  | (.ok _,connection,store) => (.error .typeError,connection,store)

/-- The customer can be refunded the amount. -/
def Refundable (store : Store) (customerId : Str) (amount : Int) : Prop :=
  ∃ customer, store.customers.lookup customerId = some customer ∧ customer.status = .active ∧
    amount ≤ customer.refundableBalance

theorem issueRefund_refused (platform : Platform) (draw : Draw) (customerId : Str) (amount : Int)
    (reason : Str) (store : Store) (refused : ¬ Refundable store customerId amount) :
    (issueRefund platform draw customerId amount reason store).2 = store := by
  simp only [issueRefund]
  split
  · rfl
  · rename_i customer known
    split_ifs with inactive short
    · rfl
    · rfl
    · exact absurd ⟨customer,known,not_not.mp inactive,not_lt.mp short⟩ refused

theorem issueRefund_refundable {platform : Platform} {draw : Draw} {customerId : Str} {amount : Int}
    {reason : Str} {store : Store} {payload : Json.Value}
    (issued : (issueRefund platform draw customerId amount reason store).1 = .ok payload) :
    Refundable store customerId amount := by
  simp only [issueRefund] at issued
  split at issued
  · contradiction
  · rename_i customer known
    split_ifs at issued with inactive short
    exact ⟨customer,known,not_not.mp inactive,not_lt.mp short⟩

theorem issueRefund_issued (platform : Platform) (draw : Draw) (customerId : Str) (amount : Int)
    (reason : Str) (store : Store) (customer : Customer)
    (known : store.customers.lookup customerId = some customer) (active : customer.status = .active)
    (covered : amount ≤ customer.refundableBalance) :
    issueRefund platform draw customerId amount reason store =
      (.ok (.dict (refundPayload platform (draw.refund customerId amount reason)
        (customer.refundableBalance - amount))),
        ⟨Dict.assign customerId
          {customer with refundableBalance := customer.refundableBalance - amount}
          store.customers,
          Dict.assign draw.refundId (draw.refund customerId amount reason) store.refunds⟩) := by
  simp only [issueRefund,known]
  rw [if_neg (not_not.mpr active),if_neg (not_lt.mpr covered)]
  rfl

theorem createRefund_state (platform : Platform) (config : Config) (endings : Endings)
    (draw : Draw) (now : ℚ) (operation : Operation) (connection : Connection) (store : Store) :
    (createRefund platform config endings draw now operation connection store).2.2 =
      (runOnce platform config endings operation now
        (issueRefund platform draw operation.customerId operation.amount operation.reason)
          connection store).2.2 := by
  unfold createRefund
  split <;> simp_all

/-- `issue` is reached and completes: the customer's balance is debited. -/
def Debits (platform : Platform) (config : Config) (endings : Endings) (now : ℚ)
    (operation : Operation) (connection : Connection) (store : Store) : Prop :=
  (∃ key, ReachesIssue platform config endings operation now connection key) ∧
    Refundable store operation.customerId operation.amount

end QuilrMcp.CustomerMcp
