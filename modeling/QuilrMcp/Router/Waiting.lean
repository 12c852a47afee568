import QuilrMcp.Router.Eviction
import QuilrMcp.Router.Tokens
import Mathlib.Algebra.Order.BigOperators.Group.List

/-! When the limiter admits what it has refused: the wait it reports against the rows that leave
the window one by one. -/
namespace QuilrMcp.Router.Waiting
open Library Library.Trace
open Library.Json (Value)
open RateLimit Eviction Tokens

/-- The operations that the router makes: each amount is the estimate of a request, or the usage that
an answer or a stream reports. -/
inductive Issued : Operation → Prop
  | checkAndReserve (tenant requestId : String) (now : ℚ)
      {body : List (Text.Str × Value)} {size : Int}
      (sized : reservationSize body = some size) :
      Issued (.checkAndReserve tenant requestId size now)
  | reserved (reservation : Reservation) {body : List (Text.Str × Value)} {size : Int}
      (sized : reservationSize body = some size) : Issued (.settle reservation size)
  | answered (reservation : Reservation) {answer : Value} {actual : Int}
      (usage : actualTokens answer = some actual) : Issued (.settle reservation actual)
  | streamed (reservation : Reservation) {collector : StreamUsageCollector} {actual : Int}
      (usage : collector.total = some actual) : Issued (.settle reservation actual)
  | release (reservation : Reservation) : Issued (.release reservation)
  | usage (tenant : String) (now : ℚ) : Issued (.usage tenant now)

theorem reservationSize_pos {body : List (Text.Str × Value)} {size : Int}
    (sized : reservationSize body = some size) :
    0 < size := by
  obtain ⟨input,estimated,rfl⟩ := Option.map_eq_some_iff.mp sized
  obtain ⟨count,_,counted⟩ := Option.bind_eq_some_iff.mp estimated
  obtain rfl : (count : Int) = input := Option.some.inj counted
  apply add_pos_of_nonneg_of_pos (Int.natCast_nonneg count)
  apply lt_min
  · split
    · split_ifs with positive
      · exact positive
      · decide
    · decide
  · decide

theorem actualTokens_pos {answer : Value} {actual : Int}
    (usage : actualTokens answer = some actual) : 0 < actual := by
  have charged (sum : Int) : 0 < max minimumCharge sum :=
    lt_of_lt_of_le (by decide) (le_max_left _ _)
  unfold actualTokens at usage
  split at usage
  · split at usage
    · simp only [] at usage
      split_ifs at usage
      cases usage
      exact charged _
    · contradiction
  · contradiction

theorem total_pos {collector : StreamUsageCollector} {actual : Int}
    (usage : collector.total = some actual) :
    0 < actual := by
  unfold StreamUsageCollector.total at usage
  split_ifs at usage
  cases usage
  exact lt_of_lt_of_le (by decide) (le_max_left _ _)

/-- Every row holds a charge. -/
def Charging (rows : List Row) : Prop := ∀ row ∈ rows, 0 < row.tokens

theorem execute_charging (limiter : RateLimiter) (rows : List Row) (operation : Operation)
    (issued : Issued operation) (charging : Charging rows) :
    Charging (execute limiter rows operation).1 := by
  have settled (reservation : Reservation) (actual : Int) (positive : 0 < actual) :
      Charging (settle rows reservation actual) := by
    intro row member
    obtain ⟨before,present,rfl⟩ := List.mem_map.mp member
    split_ifs
    · exact positive
    · exact charging before present
  cases issued with
  | @checkAndReserve tenant requestId now body size sized =>
    have kept : Charging (limiter.evict rows now) :=
      fun row member => charging row (List.mem_filter.mp member).1
    simp only [execute]
    split
    · exact charging
    · rename_i rows' decision done
      rcases checkAndReserve_cases limiter _ _ _ _ _ _ _ done with ⟨_,evicted⟩ | ⟨_,_,inserted⟩
      · exact evicted ▸ kept
      · intro row member
        rw [inserted,List.mem_append] at member
        rcases member with old | new
        · exact kept row old
        · rw [List.mem_singleton.mp new]
          exact reservationSize_pos sized
  | reserved reservation sized => exact settled reservation _ (reservationSize_pos sized)
  | answered reservation usage => exact settled reservation _ (actualTokens_pos usage)
  | streamed reservation usage => exact settled reservation _ (total_pos usage)
  | release reservation => exact fun row member => charging row (List.mem_filter.mp member).1
  | usage tenant now => exact charging

/-- The table that a list of operations leaves of the empty one. -/
def table (limiter : RateLimiter) (operations : List Operation) : List Row :=
  after (execute limiter) [] operations

theorem table_charging (limiter : RateLimiter) {operations : List Operation}
    (issued : ∀ operation ∈ operations, Issued operation) :
    Charging (table limiter operations) := by
  apply after_invariant
  · intro rows operation member
    exact execute_charging limiter rows operation (issued operation member)
  · intro row member
    exact absurd member List.not_mem_nil

section Freeing
variable (limiter : RateLimiter)

/-- The tokens of the rows that are out of the window at a reading. -/
def freed (rows : List Row) (reading : ℚ) : Int :=
  ((rows.filter (fun row => decide (row.createdAt ≤ reading - limiter.window))).map Row.tokens).sum

theorem freed_nonneg {rows : List Row} (charging : Charging rows) (reading : ℚ) :
    0 ≤ freed limiter rows reading := by
  apply List.sum_nonneg
  intro tokens member
  obtain ⟨row,kept,rfl⟩ := List.mem_map.mp member
  exact le_of_lt (charging row (List.mem_filter.mp kept).1)

/-- Rows behind one that is still in the window are in the window themselves. -/
theorem freed_zero {rows : List Row} {reading : ℚ}
    (inside : ∀ row ∈ rows, reading - limiter.window < row.createdAt) :
    freed limiter rows reading = 0 := by
  have none_ : rows.filter (fun row => decide (row.createdAt ≤ reading - limiter.window)) = [] := by
    apply List.filter_eq_nil_iff.mpr
    intro row member
    simpa using inside row member
  rw [freed,none_,List.map_nil,List.sum_nil]

theorem freed_cons (row : Row) (rows : List Row) (reading : ℚ) : freed limiter (row::rows) reading =
      (if row.createdAt ≤ reading - limiter.window then row.tokens else 0) +
        freed limiter rows reading := by
  by_cases out : row.createdAt ≤ reading - limiter.window
  · simp [freed,out]
  · simp [freed,out]

/-- The loop of `_retry_after` stops at the row whose expiry covers the shortfall. -/
theorem expiry_le_iff {now : ℚ} (later : ℚ) {shortfall before : Int} {rows : List Row}
    (sorted : rows.Pairwise (fun first second => first.createdAt ≤ second.createdAt))
    (charging : Charging rows) (live : ∀ row ∈ rows, now - limiter.window < row.createdAt)
    (short : before < shortfall) (enough : shortfall ≤ before + (rows.map Row.tokens).sum) :
    now + limiter.expiry now shortfall before rows ≤ later ↔
    shortfall ≤ before + freed limiter rows later := by
  induction rows generalizing before with
  | nil =>
    rw [List.map_nil,List.sum_nil,add_zero] at enough
    exact absurd enough (not_le.mpr short)
  | cons row rows ih =>
    obtain ⟨oldest,sorted⟩ := List.pairwise_cons.mp sorted
    have charged : 0 < row.tokens := charging row List.mem_cons_self
    have fewer : Charging rows := fun other member => charging other (List.mem_cons_of_mem _ member)
    have inside : now - limiter.window < row.createdAt := live row List.mem_cons_self
    -- Where this row is still in the window, so is every later one.
    have waiting (early : ¬ row.createdAt ≤ later - limiter.window) : freed limiter rows later =
      0 := by
      apply freed_zero
      intro other member
      have order := oldest other member
      linarith [not_le.mp early]
    rw [freed_cons,RateLimiter.expiry]
    by_cases covers : before + row.tokens ≥ shortfall
    · have positive : max 0 (row.createdAt + limiter.window - now) = row.createdAt +
        limiter.window - now :=
        max_eq_right (by linarith)
      rw [if_pos covers,positive]
      by_cases out : row.createdAt ≤ later - limiter.window
      · have rest := freed_nonneg limiter fewer later
        rw [if_pos out]
        exact iff_of_true (by linarith) (by omega)
      · rw [if_neg out,waiting out]
        exact iff_of_false (fun arrived => out (by linarith)) (by omega)
    · rw [if_neg covers]
      rw [List.map_cons,List.sum_cons] at enough
      rw [ih sorted fewer (fun other member => live other (List.mem_cons_of_mem _ member))
        (by omega) (by omega)]
      by_cases out : row.createdAt ≤ later - limiter.window
      · rw [if_pos out,add_assoc]
      · rw [if_neg out,waiting out]
        exact iff_of_false (by omega) (by omega)

/-- What is in the window later is what is in it now, less what has expired since. -/
theorem used_later (rows : List Row) (tenant : String) {now later : ℚ} (order : now ≤ later) :
    limiter.used rows tenant later = limiter.used rows tenant now - freed limiter
      (limiter.live rows tenant now) later := by
  have still : limiter.live rows tenant later =
      (limiter.live rows tenant now).filter (fun row =>
        !decide (row.createdAt ≤ later - limiter.window)) := by
    simp only [RateLimiter.live,List.filter_filter]
    apply List.filter_congr
    intro row _
    by_cases out : row.createdAt ≤ later - limiter.window
    · simp [out,not_lt.mpr out]
    · have inside : now - limiter.window < row.createdAt := by linarith [not_le.mp out]
      simp [out,inside,not_le.mp out]
  have split (rows : List Row) : (rows.map Row.tokens).sum = freed limiter rows later +
      ((rows.filter (fun row => !decide (row.createdAt ≤ later - limiter.window))).map
        Row.tokens).sum := by
    induction rows with
    | nil => rfl
    | cons row rows ih =>
      rw [freed_cons,List.map_cons,List.sum_cons,ih]
      by_cases out : row.createdAt ≤ later - limiter.window
      · simp [out,add_assoc]
      · simp only [out,if_false,decide_false,Bool.not_false,List.filter_cons_of_pos,List.map_cons,
          List.sum_cons]
        omega
  rw [RateLimiter.used,RateLimiter.used,still]
  have parts := split (limiter.live rows tenant now)
  omega

theorem freed_perm {rows sorted : List Row} (same : sorted.Perm rows) (reading : ℚ) :
    freed limiter sorted reading = freed limiter rows reading :=
  ((same.filter _).map _).sum_eq

/-- Over one table, the reported wait is the least one. -/
theorem retryAfter_le_iff {rows : List Row} (charging : Charging rows) (tenant : String)
    {needed : Int} {now later : ℚ} (order : now ≤ later) (within : needed ≤ limiter.limit)
    (exceeds : limiter.limit < limiter.used rows tenant now + needed) :
    now + limiter.retryAfter rows tenant now needed ≤ later ↔
    limiter.used rows tenant later + needed ≤ limiter.limit := by
  have same := (limiter.live rows tenant now).perm_insertionSort (fun first second =>
    first.createdAt ≤ second.createdAt)
  have sorted := (limiter.live rows tenant now).pairwise_insertionSort (fun first second =>
    first.createdAt ≤ second.createdAt)
  have total : (((limiter.live rows tenant now).insertionSort
      (fun first second => first.createdAt ≤ second.createdAt)).map Row.tokens).sum =
        limiter.used rows tenant now :=
    (same.map _).sum_eq
  have member (row : Row) (present : row ∈ (limiter.live rows tenant now).insertionSort
      (fun first second => first.createdAt ≤ second.createdAt)) :
      row ∈ rows ∧ now - limiter.window < row.createdAt := by
    have live := same.mem_iff.mp present
    simp only [RateLimiter.live,List.mem_filter,Bool.and_eq_true,decide_eq_true_eq] at live
    exact ⟨live.1,live.2.2⟩
  have short : 0 < limiter.used rows tenant now + needed - limiter.limit := by omega
  have loop := expiry_le_iff limiter later sorted (fun row present =>
    charging row (member row present).1)
    (fun row present => (member row present).2) short (by omega)
  rw [freed_perm limiter same] at loop
  rw [RateLimiter.retryAfter,total,if_neg (not_le.mpr short),loop,
    used_later limiter rows tenant order]
  omega

end Freeing

/-- The request of a tenant that was refused at `now` is made again at `later`. The clock does not run
backwards, no request id is drawn twice, and in between only other tenants act, each on its own rows. -/
structure Retried (earlier between : List Operation) (tenant requestId again : String)
    (estimate : Int) (now later : ℚ) : Prop where
  issued : ∀ operation ∈ earlier, Issued operation
  ordered : (readings (earlier ++ .checkAndReserve tenant requestId estimate now::
    (between ++ [.checkAndReserve tenant again estimate later]))).Pairwise (· ≤ ·)
  distinct : (drawn (earlier ++ .checkAndReserve tenant requestId estimate now::
    (between ++ [.checkAndReserve tenant again estimate later]))).Nodup
  owned : Owned (earlier ++ .checkAndReserve tenant requestId estimate now::
    (between ++ [.checkAndReserve tenant again estimate later])) []
  others : ∀ operation ∈ between, operation.tenant ≠ tenant

section Readmission
variable {limiter : RateLimiter} {earlier between : List Operation}
    {tenant requestId again : String} {estimate : Int}
variable {now later : ℚ} {decision : LimitDecision} {rows : List Row}

/-- Over every reachable table, the quota is free from the reported wait on and not before. -/
theorem free_iff (issued : ∀ operation ∈ earlier, Issued operation)
    (done : limiter.checkAndReserve (table limiter earlier) tenant requestId estimate now =
      .ok (rows,decision))
    (refused : decision.allowed = false) (within : estimate ≤ limiter.limit) :
    ∃ wait, decision.retryAfterSeconds = some wait ∧ ∀ reading, now ≤ reading →
      (now + wait ≤ reading ↔
        limiter.used (table limiter earlier) tenant reading + estimate ≤ limiter.limit) := by
  obtain ⟨exceeds,waits⟩ := checkAndReserve_refused limiter _ _ _ _ _ _ _ done refused
  refine ⟨_,waits,?_⟩
  intro reading order
  exact retryAfter_le_iff limiter (table_charging limiter issued) tenant order within exceeds

private theorem remember_refused {events : List Row}
    (answered : (remember limiter events (.checkAndReserve tenant requestId estimate now)).2 =
      .decided decision)
    (refused : decision.allowed = false) :
    (remember limiter events (.checkAndReserve tenant requestId estimate now)).1 = events := by
  simp only [remember] at answered ⊢
  split_ifs at answered ⊢ with exceeds
  · rfl
  · cases answered
    contradiction

private theorem others_unseen (rest : List Operation) (events : List Row)
    (owned : Owned (between ++ rest) events)
    (others : ∀ operation ∈ between, operation.tenant ≠ tenant) :
    ofTenant tenant (after (remember limiter) events between) = ofTenant tenant events := by
  induction between generalizing events with
  | nil => rfl
  | cons operation between ih =>
    have first := remember_unseen limiter tenant operation (between ++ rest) events
      (others operation List.mem_cons_self) owned
    have onward :=
      ih (remember limiter events operation).1 (owned_next limiter operation _ events owned)
      (fun other member => others other (List.mem_cons_of_mem _ member))
    exact onward.trans first

/-- Other tenants leave this tenant's quota as it was, and the check that follows decides by it. -/
theorem readmitted_iff (retried : Retried earlier between tenant requestId again estimate now later)
    (done : limiter.checkAndReserve (table limiter earlier) tenant requestId estimate now = .ok (rows,decision))
    (refused : decision.allowed = false) :
    ∃ readmission, (execute limiter (after (execute limiter) rows between)
        (.checkAndReserve tenant again estimate later)).2 = .decided readmission ∧
      (readmission.allowed = true ↔ limiter.used (table limiter earlier) tenant later + estimate ≤ limiter.limit) := by
  let Related (rest : List Operation) (rows events : List Row) : Prop := InStep limiter rest rows events ∧ Owned rest events
  have kept (operation : Operation) (rest : List Operation) (rows events : List Row)
      (related : Related (operation::rest) rows events) :
      Related rest (execute limiter rows operation).1 (remember limiter events operation).1 :=
    ⟨(step_inStep limiter operation rest rows events related.1).2,owned_next limiter operation rest events related.2⟩
  have start : Related (earlier ++ .checkAndReserve tenant requestId estimate now::
      (between ++ [.checkAndReserve tenant again estimate later])) [] [] :=
    ⟨⟨fun _ _ => rfl,retried.ordered,fun _ _ => List.not_mem_nil,retried.distinct⟩,retried.owned⟩
  have before := after_related Related kept start
  -- The refusal, in the table and in the history.
  have first := step_inStep limiter _ _ _ _ before.1
  have executed : execute limiter (table limiter earlier) (.checkAndReserve tenant requestId estimate now) =
      (rows,.decided decision) := by rw [execute,done]
  have unchanged := remember_refused (first.1.symm.trans (congrArg Prod.snd executed)) refused
  have moved : (execute limiter (after (execute limiter) [] earlier)
      (.checkAndReserve tenant requestId estimate now)).1 = rows := congrArg Prod.fst executed
  have next := kept _ _ _ _ before
  rw [unchanged,moved] at next
  -- The second check reads what the first one did, less what has expired.
  have last := (step_inStep limiter _ _ _ _ (after_related Related kept next).1).1
  have reads : later ∈ readings (.checkAndReserve tenant requestId estimate now::
      (between ++ [.checkAndReserve tenant again estimate later])) := by simp [readings,Operation.reading]
  have same : limiter.used (after (remember limiter) (after (remember limiter) [] earlier) between) tenant later =
      limiter.used (table limiter earlier) tenant later := by
    calc limiter.used (after (remember limiter) (after (remember limiter) [] earlier) between) tenant later
        = limiter.used (ofTenant tenant (after (remember limiter) [] earlier)) tenant later := by
          rw [← used_ofTenant,others_unseen _ _ next.2 retried.others]
      _ = limiter.used (after (remember limiter) [] earlier) tenant later := used_ofTenant limiter tenant _ later
      _ = limiter.used (table limiter earlier) tenant later :=
          (used_of_evict limiter (before.1.same later reads) tenant).symm
  rw [last,remember]
  simp only [same]
  split_ifs with exceeds
  · exact ⟨_,rfl,by simpa using exceeds⟩
  · exact ⟨_,rfl,by simpa using exceeds⟩

/-- The refused request is admitted from the reported wait on, and not before: for every table that the
router's operations leave, and whatever other tenants do in the meantime. -/
theorem retry_after_exact
    (retried : Retried earlier between tenant requestId again estimate now later)
    (within : estimate ≤ limiter.limit)
    (done : limiter.checkAndReserve (table limiter earlier) tenant requestId estimate now =
      .ok (rows,decision))
    (refused : decision.allowed = false) :
    ∃ wait readmission, decision.retryAfterSeconds = some wait ∧
      (execute limiter (after (execute limiter) rows between)
        (.checkAndReserve tenant again estimate later)).2 = .decided readmission ∧
      (readmission.allowed = true ↔ now + wait ≤ later) := by
  obtain ⟨wait,waits,free⟩ := free_iff retried.issued done refused within
  obtain ⟨readmission,answered,admitted⟩ := readmitted_iff retried done refused
  have order : now ≤ later := by
    have ordered := retried.ordered
    simp only [readings,List.filterMap_append,List.filterMap_cons,Operation.reading] at ordered
    exact (List.pairwise_cons.mp (List.pairwise_append.mp ordered).2.1).1 later
      (by simp [Operation.reading])
  exact ⟨wait,readmission,waits,answered,admitted.trans (free later order).symm⟩

end Readmission

/-- A request that cost more than was reserved for it. -/
def overspent : List Operation :=
  [.checkAndReserve "acme" "r1" 1025 0,.settle ⟨"r1","acme",1025⟩ 49500]

def overspending : Value := .dict [(Text.lit "usage",.dict [(Text.lit "output_tokens",.int 49500)])]

theorem overspent_issued : ∀ operation ∈ overspent, Issued operation := by
  intro operation member
  rcases List.mem_cons.mp member with rfl | member
  · apply @Issued.checkAndReserve "acme" "r1" 0 []
    decide +kernel
  · rw [List.mem_singleton.mp member]
    apply @Issued.answered ⟨"r1","acme",1025⟩ overspending
    decide +kernel

theorem overspent_retried :
    Retried overspent [.checkAndReserve "globex" "r3" 10 20] "acme" "r2" "r4" 1025 10 60 :=
  ⟨overspent_issued,
    by decide +kernel,by decide +kernel,by unfold Owned; decide +kernel,by decide +kernel⟩

theorem retry_after_exact_minute :
    ∃ wait readmission, (⟨false,49500,50000,none,some 50⟩ : LimitDecision).retryAfterSeconds =
      some wait ∧
      (execute defaultLimiter (after (execute defaultLimiter) [⟨"acme","r1",49500,0,.settled⟩]
        [.checkAndReserve "globex" "r3" 10 20]) (.checkAndReserve "acme" "r4" 1025 60)).2 =
          .decided readmission ∧
      (readmission.allowed = true ↔ 10 + wait ≤ 60) :=
  retry_after_exact overspent_retried (by decide) (by decide +kernel) rfl

end QuilrMcp.Router.Waiting
