import QuilrMcp.Router.Eviction

/-! The limiter over the table that SQLite keeps. The column holds 64-bit integers: `SUM` fails when the sum so far
leaves their range, and a larger amount cannot be bound. -/
namespace QuilrMcp.Router.Stored
open RateLimit Eviction Library.Trace

def fits (amount : Int) : Bool := decide (-2 ^ 63 ≤ amount ∧ amount < 2 ^ 63)

/-- `SUM`, from what has been summed so far. -/
def total : Int → List Int → Option Int
  | sum, [] => some sum
  | sum, amount::amounts => if fits (sum + amount) then total (sum + amount) amounts else none

/-- In the order of the index on `(tenant, created_at)`. -/
def indexed (rows : List Row) : List Row :=
  rows.insertionSort (fun a b => a.createdAt ≤ b.createdAt)

/-- `SELECT COALESCE(SUM(tokens), 0)` -/
def used (limiter : RateLimiter) (rows : List Row) (tenant : String) (now : ℚ) :
    Except Failure Int :=
  match total 0 ((indexed (limiter.live rows tenant now)).map Row.tokens) with
  | none => .error .operationalError
  | some sum => .ok sum

def insert (rows : List Row) (row : Row) : Except Failure (List Row) :=
  if fits row.tokens then RateLimit.insert rows row else .error .overflowError

def checkAndReserve (limiter : RateLimiter) (rows : List Row) (tenant requestId : String)
    (estimatedTokens : Int) (now : ℚ) : Except Failure (List Row × LimitDecision) := do
  let rows := limiter.evict rows now
  let used ← used limiter rows tenant now
  if used + estimatedTokens > limiter.limit then
    return (rows,⟨false,used,limiter.limit,none,
      some (limiter.retryAfter rows tenant now estimatedTokens)⟩)
  let rows ← insert rows ⟨tenant,requestId,estimatedTokens,now,.reserved⟩
  return (rows,⟨true,used + estimatedTokens,limiter.limit,some ⟨requestId,tenant,estimatedTokens⟩,
    none⟩)

def settle (rows : List Row) (reservation : Reservation) (actualTokens : Int) :
    Except Failure (List Row) :=
  if fits actualTokens then .ok (RateLimit.settle rows reservation actualTokens)
  else .error .overflowError

theorem total_sum {start sum : Int} {amounts : List Int} (added : total start amounts = some sum) :
    sum = start + amounts.sum := by
  induction amounts generalizing start with
  | nil =>
    cases added
    rw [List.sum_nil,Int.add_zero]
  | cons amount amounts ih =>
    rw [total] at added
    split_ifs at added
    rw [ih added,List.sum_cons,Int.add_assoc]

section Limiter
variable (limiter : RateLimiter)

/-- The sum over the rows of a tenant stays in the range of the column, oldest first. -/
def Summed (rows : List Row) (tenant : String) (now : ℚ) : Prop :=
  (total 0 ((indexed (limiter.live rows tenant now)).map Row.tokens)).isSome

instance (rows : List Row) (tenant : String) (now : ℚ) :
    Decidable (Summed limiter rows tenant now) :=
  inferInstanceAs (Decidable (_ = true))

theorem used_eq (rows : List Row) (tenant : String) (now : ℚ) : used limiter rows tenant now =
    if Summed limiter rows tenant now then .ok (limiter.used rows tenant now)
    else .error .operationalError := by
  by_cases summed : Summed limiter rows tenant now
  · obtain ⟨sum,added⟩ := Option.isSome_iff_exists.mp summed
    have order := (limiter.live rows tenant now).perm_insertionSort (fun a b =>
      a.createdAt ≤ b.createdAt)
    have same := (order.map Row.tokens).sum_eq
    rw [if_pos summed,used,added,total_sum added,Int.zero_add,indexed,same]
    rfl
  · rw [if_neg summed,used,Option.not_isSome_iff_eq_none.mp summed]

theorem summed_of_live {rows events : List Row} {tenant : String} {now : ℚ}
    (same : limiter.live rows tenant now = limiter.live events tenant now) :
    Summed limiter rows tenant now ↔ Summed limiter events tenant now := by
  rw [Summed,same,Summed]

/-- What an operation fails with for the range of the column, on any table with the same rows in the window. -/
def overflow (rows : List Row) : Operation → Option Failure
  | .checkAndReserve tenant _ estimatedTokens now =>
    if Summed limiter rows tenant now then
      if limiter.used rows tenant now + estimatedTokens ≤ limiter.limit ∧
        fits estimatedTokens = false then
        some .overflowError
      else none
    else some .operationalError
  | .settle _ actualTokens => if fits actualTokens then none else some .overflowError
  | .release _ => none
  | .usage tenant now => if Summed limiter rows tenant now then none else some .operationalError

theorem checkAndReserve_eq (rows : List Row) (tenant requestId : String)
    (estimatedTokens : Int) (now : ℚ) :
    checkAndReserve limiter rows tenant requestId estimatedTokens now =
      (overflow limiter rows (.checkAndReserve tenant requestId estimatedTokens now)).elim
        (limiter.checkAndReserve rows tenant requestId estimatedTokens now) .error := by
  have summed := summed_of_live limiter (live_evict limiter rows tenant now)
  have known := used_eq limiter (limiter.evict rows now) tenant now
  rw [used_evict] at known
  by_cases added : Summed limiter rows tenant now
  · rw [if_pos (summed.mpr added)] at known
    by_cases exceeds : limiter.used rows tenant now + estimatedTokens > limiter.limit
    · simp only [checkAndReserve,known,overflow,if_pos added,not_le.mpr exceeds,false_and,if_false,
        RateLimiter.checkAndReserve,used_evict,if_pos exceeds,bind,Except.bind,Option.elim_none]
    · cases bound : fits estimatedTokens with
      | false => simp [checkAndReserve,known,overflow,added,not_lt.mp exceeds,exceeds,insert,bound,
          bind,Except.bind]
      | true =>
        simp only [checkAndReserve,known,overflow,if_pos added,bound,Bool.true_eq_false,
          and_false,if_false,
          RateLimiter.checkAndReserve,used_evict,if_neg exceeds,insert,if_true,bind,Except.bind,
          Option.elim_none]
  · rw [if_neg (summed.not.mpr added)] at known
    simp only [checkAndReserve,known,overflow,if_neg added,bind,Except.bind,Option.elim_some]

def Overflows (events : List Row) (operation : Operation) : Prop :=
  (overflow limiter events operation).isSome

instance (events : List Row) (operation : Operation) :
    Decidable (Overflows limiter events operation) :=
  inferInstanceAs (Decidable (_ = true))

end Limiter

end QuilrMcp.Router.Stored
