import Mathlib.Data.Rat.Defs
import Mathlib.Algebra.Order.Field.Rat
import Mathlib.Data.List.Sort
import Mathlib.Algebra.BigOperators.Group.List.Basic

/-! The token-aware sliding window of the router, over the rows of `token_usage`.
Clock readings are exact rationals and amounts exact integers, which `Stored` keeps in the
range of their column. The surrogate `id` column and the indexes are left out, but the unique
index on `request_id` is kept: it makes INSERT fail. -/
namespace QuilrMcp.Router.RateLimit

inductive RowState
  | reserved
  | settled
  deriving DecidableEq, Repr

structure Row where
  tenant : String
  requestId : String
  tokens : Int
  createdAt : ℚ
  state : RowState
  deriving DecidableEq

/-- Quota held for one in-flight request. -/
structure Reservation where
  requestId : String
  tenant : String
  estimatedTokens : Int
  deriving DecidableEq

/-- The outcome of an admission check. -/
structure LimitDecision where
  allowed : Bool
  usedTokens : Int
  limit : Int
  reservation : Option Reservation := none
  retryAfterSeconds : Option ℚ := none
  deriving DecidableEq

def LimitDecision.remaining (decision : LimitDecision) : Int :=
  max 0 (decision.limit - decision.usedTokens)

/-- A limiter whose limit and window passed `Config.validate`. -/
structure RateLimiter where
  limit : Int
  window : ℚ
  limit_pos : 0 < limit
  window_pos : 0 < window

def defaultLimiter : RateLimiter := ⟨50000,60,by decide,by decide +kernel⟩

namespace RateLimiter
variable (limiter : RateLimiter)

/-- `DELETE FROM token_usage WHERE created_at <= now - window` -/
def evict (rows : List Row) (now : ℚ) : List Row :=
  rows.filter (fun row => !decide (row.createdAt ≤ now - limiter.window))

/-- The rows that both SELECT statements range over. -/
def live (rows : List Row) (tenant : String) (now : ℚ) : List Row :=
  rows.filter (fun row => decide (row.tenant = tenant) &&
    decide (now - limiter.window < row.createdAt))

def used (rows : List Row) (tenant : String) (now : ℚ) : Int :=
  ((limiter.live rows tenant now).map Row.tokens).sum

/-- The loop of `_retry_after` over the rows oldest-first. -/
def expiry (now : ℚ) (shortfall : Int) : Int → List Row → ℚ
  | _, [] => limiter.window
  | freed, row::rest =>
    if freed + row.tokens ≥ shortfall then max 0 (row.createdAt + limiter.window - now)
    else expiry now shortfall (freed + row.tokens) rest

def retryAfter (rows : List Row) (tenant : String) (now : ℚ) (needed : Int) : ℚ :=
  let rows := (limiter.live rows tenant now).insertionSort (fun a b => a.createdAt ≤ b.createdAt)
  let shortfall := (rows.map Row.tokens).sum + needed - limiter.limit
  if shortfall ≤ 0 then 0 else limiter.expiry now shortfall 0 rows

end RateLimiter

inductive Failure
  | integrityError
  | operationalError
  | overflowError
  deriving DecidableEq

/-- INSERT under the unique index `idx_usage_request`. -/
def insert (rows : List Row) (row : Row) : Except Failure (List Row) :=
  if row.requestId ∈ rows.map Row.requestId then .error .integrityError else .ok (rows ++ [row])

namespace RateLimiter
variable (limiter : RateLimiter)

/-- The body of the transaction in `check_and_reserve`. A failure rolls the rows back,
so the caller keeps the rows it had. -/
def checkAndReserve (rows : List Row) (tenant requestId : String) (estimatedTokens : Int)
    (now : ℚ) : Except Failure (List Row × LimitDecision) := do
  let rows := limiter.evict rows now
  let used := limiter.used rows tenant now
  if used + estimatedTokens > limiter.limit then
    return (rows,⟨false,used,limiter.limit,none,
      some (limiter.retryAfter rows tenant now estimatedTokens)⟩)
  let rows ← insert rows ⟨tenant,requestId,estimatedTokens,now,.reserved⟩
  return (rows,⟨true,used + estimatedTokens,limiter.limit,some ⟨requestId,tenant,estimatedTokens⟩,
    none⟩)

end RateLimiter

/-- `UPDATE token_usage SET tokens = ?, state = 'settled' WHERE request_id = ?` -/
def settle (rows : List Row) (reservation : Reservation) (actualTokens : Int) : List Row :=
  rows.map (fun row => if row.requestId = reservation.requestId then
    {row with tokens := actualTokens, state := .settled} else row)

/-- `DELETE FROM token_usage WHERE request_id = ?` -/
def release (rows : List Row) (reservation : Reservation) : List Row :=
  rows.filter (fun row => !decide (row.requestId = reservation.requestId))

def RateLimiter.usage (limiter : RateLimiter) (rows : List Row) (tenant : String) (now : ℚ) : Int :=
  limiter.used rows tenant now

/-- What one admission check does to the table: the three ways through the transaction. -/
theorem checkAndReserve_cases (limiter : RateLimiter) (rows rows' : List Row)
    (tenant requestId : String) (estimatedTokens : Int) (now : ℚ) (decision : LimitDecision)
    (done : limiter.checkAndReserve rows tenant requestId estimatedTokens now =
      .ok (rows',decision)) :
    (decision.allowed = false ∧ rows' = limiter.evict rows now) ∨
    (decision.allowed = true ∧
      limiter.used (limiter.evict rows now) tenant now + estimatedTokens ≤ limiter.limit ∧
      rows' = limiter.evict rows now ++ [⟨tenant,requestId,estimatedTokens,now,.reserved⟩]) := by
  simp only [RateLimiter.checkAndReserve,insert] at done
  split_ifs at done with exceeds taken
  · cases done
    exact Or.inl ⟨rfl,rfl⟩
  · simp [bind,Except.bind] at done
  · cases done
    exact Or.inr ⟨rfl,not_lt.mp exceeds,rfl⟩

theorem checkAndReserve_admitted (limiter : RateLimiter) (rows rows' : List Row)
    (tenant requestId : String) (estimatedTokens : Int) (now : ℚ) (decision : LimitDecision)
    (done : limiter.checkAndReserve rows tenant requestId estimatedTokens now =
      .ok (rows',decision))
    (allowed : decision.allowed = true) :
    decision = ⟨true,limiter.used (limiter.evict rows now) tenant now + estimatedTokens,
      limiter.limit,some ⟨requestId,tenant,estimatedTokens⟩,none⟩ := by
  simp only [RateLimiter.checkAndReserve,insert] at done
  split_ifs at done with exceeds taken
  · cases done
    contradiction
  · simp [bind,Except.bind] at done
  · cases done
    rfl

theorem checkAndReserve_reservation (limiter : RateLimiter) (rows rows' : List Row)
    (tenant requestId : String) (estimatedTokens : Int) (now : ℚ) (decision : LimitDecision)
    (done : limiter.checkAndReserve rows tenant requestId estimatedTokens now =
      .ok (rows',decision))
    (allowed : decision.allowed = true) :
    decision.reservation = some ⟨requestId,tenant,estimatedTokens⟩ := by
  rw [checkAndReserve_admitted limiter rows rows' tenant requestId estimatedTokens now
    decision done allowed]

theorem settle_ids (rows : List Row) (reservation : Reservation) (actualTokens : Int) :
    (settle rows reservation actualTokens).map Row.requestId = rows.map Row.requestId := by
  rw [settle,List.map_map]
  apply List.map_congr_left
  intro row _
  simp only [Function.comp_apply]
  split_ifs <;> rfl

/-- An eviction does not change what the same reading of the clock sums. -/
theorem live_evict (limiter : RateLimiter) (rows : List Row) (tenant : String) (now : ℚ) :
    limiter.live (limiter.evict rows now) tenant now = limiter.live rows tenant now := by
  simp only [RateLimiter.live,RateLimiter.evict,List.filter_filter]
  apply List.filter_congr
  intro row _
  by_cases h : now - limiter.window < row.createdAt
  · simp [h]
  · simp [h]

theorem used_evict (limiter : RateLimiter) (rows : List Row) (tenant : String) (now : ℚ) :
    limiter.used (limiter.evict rows now) tenant now = limiter.used rows tenant now := by
  rw [RateLimiter.used,live_evict,RateLimiter.used]

/-- What a refusal says of the table that it was made on. -/
theorem checkAndReserve_refused (limiter : RateLimiter) (rows rows' : List Row)
    (tenant requestId : String) (estimatedTokens : Int) (now : ℚ) (decision : LimitDecision)
    (done : limiter.checkAndReserve rows tenant requestId estimatedTokens now =
      .ok (rows',decision))
    (refused : decision.allowed = false) :
    limiter.limit < limiter.used rows tenant now + estimatedTokens ∧
      decision.retryAfterSeconds = some (limiter.retryAfter rows tenant now estimatedTokens) := by
  simp only [RateLimiter.checkAndReserve,insert,used_evict] at done
  split_ifs at done with exceeds taken
  · cases done
    refine ⟨exceeds,?_⟩
    rw [RateLimiter.retryAfter,live_evict,RateLimiter.retryAfter]
  · simp [bind,Except.bind] at done
  · cases done
    contradiction

end QuilrMcp.Router.RateLimit
