import QuilrMcp.CustomerMcp.Store

/-! What a refund that ends in an exception leaves in the tables. -/
namespace QuilrMcp.CustomerMcp.FailedRefund
open Library Library.Text

/-- The call raises. -/
def Fails (platform : Platform) (config : Config) (endings : Endings) (draw : Draw) (now : ℚ)
    (operation : Operation) (connection : Connection) (store : Store) : Prop :=
  ∃ failure, (createRefund platform config endings draw now operation connection store).1 =
    .error failure

/-- The tables are as they were before the call. -/
def MovesNothing (platform : Platform) (config : Config) (endings : Endings) (draw : Draw) (now : ℚ)
    (operation : Operation) (connection : Connection) (store : Store) : Prop :=
  (createRefund platform config endings draw now operation connection store).2.2 = store

/-- The record of the refund that the call would issue can be kept. -/
def Kept (platform : Platform) (endings : Endings) (draw : Draw) (operation : Operation)
    (store : Store) : Prop :=
  ∃ customer, store.customers.lookup operation.customerId = some customer ∧
    Records platform endings operation (.dict (refundPayload platform
      (draw.refund operation.customerId operation.amount operation.reason)
      (customer.refundableBalance - operation.amount)))

section
variable (platform : Platform) (config : Config) (endings : Endings) (draw : Draw) (now : ℚ)
    (operation : Operation)
  (connection : Connection) (store : Store)

/-- The tables change exactly when `issue` completes, whatever comes after it. -/
theorem movesNothing_iff (fresh : store.refunds.lookup draw.refundId = none) :
    MovesNothing platform config endings draw now operation connection store ↔
      ¬ Debits platform config endings now operation connection store := by
  rw [MovesNothing,createRefund_state]
  rcases runOnce_state platform config endings operation now
      (issueRefund platform draw operation.customerId operation.amount operation.reason)
        connection store with
    ⟨reaches,state⟩ | ⟨stopped,state⟩
  · rw [state]
    by_cases refundable : Refundable store operation.customerId operation.amount
    · refine iff_of_false ?_ (not_not.mpr ⟨reaches,refundable⟩)
      obtain ⟨customer,known,active,covered⟩ := refundable
      rw [issueRefund_issued platform draw _ _ _ store customer known active covered]
      intro same
      exact Dict.assign_ne _ _ _ fresh (congrArg Store.refunds same)
    · exact iff_of_true (issueRefund_refused _ _ _ _ _ _ refundable) (fun debits =>
        refundable debits.2)
  · exact iff_of_true state (fun debits => stopped debits.1)

/-- A call whose `issue` completes raises exactly when the record cannot be kept. -/
theorem fails_iff (debits : Debits platform config endings now operation connection store) :
    Fails platform config endings draw now operation connection store ↔
      ¬ Kept platform endings draw operation store := by
  obtain ⟨⟨key,reaches⟩,customer,known,active,covered⟩ := debits
  have issued :=
    issueRefund_issued platform draw operation.customerId operation.amount operation.reason
      store customer
    known active covered
  rcases runOnce_issued platform config endings operation now _ connection store _ key _
    reaches issued with
    ⟨records,outcome⟩ | ⟨unrecorded,failure,outcome⟩
  · refine iff_of_false ?_ (not_not.mpr ⟨customer,known,records⟩)
    rintro ⟨failure,failed⟩
    unfold createRefund at failed
    split at failed <;> simp_all
  · refine iff_of_true ⟨failure,?_⟩ ?_
    · unfold createRefund
      split <;> simp_all
    · rintro ⟨other,known',records⟩
      obtain rfl := Option.some.inj (known.symm.trans known')
      exact unrecorded records

/-- A failed refund moves no money exactly when no call that gets through `issue` fails to keep its record. -/
theorem failed_refund_moves_nothing_iff (fresh : store.refunds.lookup draw.refundId = none) :
    (Fails platform config endings draw now operation connection store →
      MovesNothing platform config endings draw now operation connection store) ↔
    (Debits platform config endings now operation connection store →
      Kept platform endings draw operation store) := by
  rw [movesNothing_iff platform config endings draw now operation connection store fresh]
  constructor
  · intro safe debits
    by_contra lost
    exact safe ((fails_iff platform config endings draw now operation connection store debits).mpr
      lost) debits
  · intro kept failed debits
    exact (fails_iff platform config endings draw now operation connection store debits).mp
      failed (kept debits)

end

/-- A refund of 49.99 to Ada Lovelace on a new ledger. -/
def sampleOperation : Operation := ⟨lit "CUST-00042",4999,lit "Duplicate charge",some (lit "retry")⟩

def sampleDraw : Draw := ⟨lit "0f8fad5bd9cb469fa16570867728950e",lit "2026-01-05T10:00:00+00:00"⟩

private theorem sample_debits (endings : Endings) (begun : endings.begin = .done)
    (deleted : endings.delete = .done) (selected : endings.select = .done) :
    Debits samplePlatform defaultConfig endings 0 sampleOperation ⟨[],none⟩ Store.start :=
  ⟨⟨lit "key:CUST-00042:retry",rfl,rfl,begun,deleted,by decide,selected,rfl⟩,
    ⟨lit "CUST-00042",lit "Ada Lovelace",lit "ada@example.com",.active,124000,32000,
      lit "2023-04-11"⟩,
    rfl,rfl,by decide⟩

private theorem sample_fails :
    Fails samplePlatform defaultConfig {commit := .raised} sampleDraw 0 sampleOperation ⟨[],
      none⟩ Store.start :=
  (fails_iff samplePlatform defaultConfig {commit := .raised} sampleDraw 0 sampleOperation ⟨[],
    none⟩ Store.start
    (sample_debits {commit := .raised} rfl rfl rfl)).mpr
    (by rintro ⟨_,_,records⟩; cases records.committed)

theorem failed_refund_moves_nothing_commit :
    Fails samplePlatform defaultConfig {commit := .raised} sampleDraw 0 sampleOperation ⟨[],
      none⟩ Store.start ∧
    ((Fails samplePlatform defaultConfig {commit := .raised} sampleDraw 0 sampleOperation ⟨[],
      none⟩ Store.start →
      MovesNothing samplePlatform defaultConfig {commit := .raised} sampleDraw 0 sampleOperation
        ⟨[],none⟩ Store.start) ↔
    (Debits samplePlatform defaultConfig {commit := .raised} 0 sampleOperation ⟨[],
      none⟩ Store.start →
      Kept samplePlatform {commit := .raised} sampleDraw sampleOperation Store.start)) :=
  ⟨sample_fails,failed_refund_moves_nothing_iff samplePlatform defaultConfig
    {commit := .raised} sampleDraw 0
    sampleOperation ⟨[],none⟩ Store.start rfl⟩

/-- COMMIT raises after `issue` has returned: the balance is debited and nothing restores it. -/
theorem failed_commit_debits :
    ¬ ∀ (platform : Platform) (config : Config) (endings : Endings) (draw : Draw) (now : ℚ) (operation : Operation)
      (connection : Connection) (store : Store), store.refunds.lookup draw.refundId = none →
      Fails platform config endings draw now operation connection store →
      MovesNothing platform config endings draw now operation connection store := by
  intro safe
  have debits := sample_debits {commit := .raised} rfl rfl rfl
  exact (movesNothing_iff samplePlatform defaultConfig {commit := .raised} sampleDraw 0
    sampleOperation ⟨[],none⟩
    Store.start rfl).mp (safe _ _ _ _ _ _ _ _ rfl sample_fails) debits

end QuilrMcp.CustomerMcp.FailedRefund
