import QuilrMcp.Library.JsonRoundTrip
import QuilrMcp.Router.Routing
import QuilrMcp.Router.Waiting

/-! The Retry-After header of a refused request, and the request made again when it says. -/
namespace QuilrMcp.Router.RetryAfter
open Library Library.Text Library.Trace
open Library.Json (intText intText_injective)
open RateLimit Eviction Providers Tokens Routing Waiting

def retryAfterName : Str := lit "retry-after"

/-- The headers that a result of an admitted request may carry. -/
def Plain (decision : LimitDecision) (result : RouteResult) : Prop :=
  result.headers = rateLimitHeaders decision ∨
    ∃ provider attempts, result.headers = rateLimitHeaders decision ++
      providerHeaders provider attempts

private theorem admitted_headers {decision : LimitDecision}
    (admits : decision.retryAfterSeconds = none) (value : Str) {result : RouteResult}
    (plain : Plain decision result) : (retryAfterName,value) ∉ result.headers := by
  have names : retryAfterName ≠ lit "x-ratelimit-limit-tokens" ∧
    retryAfterName ≠ lit "x-ratelimit-remaining-tokens" ∧
      retryAfterName ≠ lit "x-gateway-provider" ∧
      retryAfterName ≠ lit "x-gateway-attempts" := by decide
  rcases plain with same | ⟨provider,attempts,same⟩
  · simp [same,rateLimitHeaders,admits,names]
  · simp [same,rateLimitHeaders,admits,providerHeaders,names]

section Dispatch
variable (decision : LimitDecision) (reservation : Reservation) (reserved : Int)

private theorem served_plain (attempts : List Attempt) (contact : Contact) (result : RouteResult)
    (ends : (served decision reservation reserved attempts contact).result = some result) :
    Plain decision result := by
  unfold served at ends
  split at ends
  · contradiction
  · cases ends
    split_ifs
    · exact Or.inr ⟨_,_,rfl⟩
    · exact Or.inl rfl

private theorem openedBy_plain (tables : Unicode.Tables) (attempts : List Attempt)
    (contact : Contact) (result : RouteResult)
    (ends : (openedBy decision reservation reserved tables attempts contact).result = some result) :
    Plain decision result := by
  unfold openedBy at ends
  split at ends
  · contradiction
  · split at ends
    · cases ends
      exact Or.inr ⟨_,_,rfl⟩
    · cases ends
      exact Or.inl rfl

theorem dispatch_plain (tables : Unicode.Tables) (request : Request) (contacts : List Contact) (result : RouteResult)
    (ends : (dispatch tables request decision reservation reserved contacts).result = some result) :
    Plain decision result := by
  have failed (attempts : List Attempt) (ends : (exhausted decision reservation reserved attempts).result = some result) :
      Plain decision result := by
    cases ends
    exact Or.inl rfl
  unfold dispatch at ends
  split_ifs at ends with streams
  · rw [openStream_eq] at ends
    cases decisive : deciding callStream contacts with
    | none => exact failed _ (by simpa only [decisive] using ends)
    | some contact => exact openedBy_plain decision reservation reserved tables _ contact result (by simpa only [decisive] using ends)
  · rw [serve_eq] at ends
    cases decisive : deciding callProvider contacts with
    | none => exact failed _ (by simpa only [decisive] using ends)
    | some contact => exact served_plain decision reservation reserved _ contact result (by simpa only [decisive] using ends)

end Dispatch

private theorem conclude_result {tables : Unicode.Tables} {format : Json.FloatFormat}
    {reservation : Reservation} {reserved : Int} {run : Run} {finish : Finish}
    {result : RouteResult} (ends : (conclude tables format reservation reserved run finish).2 =
      some result) : finish.result = some result := by
  cases finish with
  | raised => contradiction
  | opened response known => exact ends
  | closing statement known =>
    simp only [conclude] at ends
    split at ends
    · exact ends
    · contradiction
    · contradiction

theorem route_limited {tables : Unicode.Tables} {format : Json.FloatFormat} {limiter : RateLimiter}
    {rows admitted : List Row} {request : Request} {contacts : List Contact} {run : Run}
    {size : Int} {decision : LimitDecision} (awaited : run.admission = .done)
    (sized : reservationSize request.body = some size)
    (done : limiter.checkAndReserve rows request.tenant request.requestId size request.now =
      .ok (admitted,decision))
    (refused : decision.allowed = false) :
    route tables format limiter rows request contacts run =
      ⟨admitted,[],some (rateLimitedResult limiter decision size)⟩ := by
  simp only [route,sized,awaited,done,refused]
  rfl

/-- The header stands in the answer to a refused request alone. -/
theorem route_refused {tables : Unicode.Tables} {format : Json.FloatFormat} {limiter : RateLimiter}
    {rows : List Row} {request : Request} {contacts : List Contact} {run : Run}
    {result : RouteResult} {value : Str}
    (answered : (route tables format limiter rows request contacts run).result = some result)
    (header : (retryAfterName,value) ∈ result.headers) :
    ∃ size decision, reservationSize request.body = some size ∧
      limiter.checkAndReserve rows request.tenant request.requestId size request.now =
        .ok ((route tables format limiter rows request contacts run).admitted,decision) ∧
      decision.allowed = false ∧ result = rateLimitedResult limiter decision size := by
  cases sized : reservationSize request.body with
  | none => simp [route,sized] at answered
  | some size =>
    cases done : limiter.checkAndReserve rows request.tenant request.requestId size request.now with
    | error failure => simp [route,sized,done] at answered
    | ok outcome =>
      obtain ⟨admitted,decision⟩ := outcome
      cases awaited : run.admission with
      | failed => simp [route,sized,awaited] at answered
      | abandoned => simp [route,sized,awaited,done] at answered
      | done =>
        cases allowed : decision.allowed with
        | false =>
          rw [route_limited awaited sized done allowed] at answered ⊢
          exact ⟨size,decision,rfl,done,allowed,(Option.some.inj answered).symm⟩
        | true =>
          have reserved := checkAndReserve_reservation limiter _ _ _ _ _ _ _ done allowed
          have unwaiting : decision.retryAfterSeconds = none := by
            rw [checkAndReserve_admitted limiter _ _ _ _ _ _ _ done allowed]
          simp only [route,sized,awaited,done,allowed,reserved] at answered
          have plain := dispatch_plain decision _ size tables request contacts result
            (conclude_result answered)
          exact absurd header (admitted_headers unwaiting value plain)

/-- The whole seconds that the header gives for an exact wait. -/
def headerSeconds (wait : ℚ) : Int := max 1 ⌊wait + 999 / 1000⌋

/-- Adding 0.999 and truncating falls short of a wait that passes a whole second by less than a millisecond. -/
theorem wait_le_header_iff (wait : ℚ) :
    wait ≤ headerSeconds wait ↔ ¬ ∃ seconds : Int, 1 ≤ seconds ∧ (seconds : ℚ) < wait ∧
    wait < seconds + 1 / 1000 := by
  constructor
  · rintro enough ⟨seconds,positive,passed,little⟩
    have truncated : ⌊wait + 999 / 1000⌋ = seconds := by
      apply Int.floor_eq_iff.mpr
      constructor <;> linarith
    rw [headerSeconds,truncated,max_eq_right positive] at enough
    linarith
  · intro never
    by_contra short
    apply never
    refine ⟨headerSeconds wait,le_max_left _ _,not_le.mp short,?_⟩
    have below : (⌊wait + 999 / 1000⌋ : ℚ) ≤ headerSeconds wait := by
      exact_mod_cast le_max_right 1 ⌊wait + 999 / 1000⌋
    have truncated := Int.lt_floor_add_one (wait + 999 / 1000)
    linarith

theorem refused_header {limiter : RateLimiter} {decision : LimitDecision}
    {size seconds : Int} {wait : ℚ} (waits : decision.retryAfterSeconds = some wait)
    (header : (retryAfterName,intText seconds) ∈ (rateLimitedResult limiter decision
      size).headers) :
    seconds = headerSeconds wait := by
  have names : retryAfterName ≠ lit "x-ratelimit-limit-tokens" ∧
    retryAfterName ≠ lit "x-ratelimit-remaining-tokens" := by
    decide
  have value : retryAfterName = lit "retry-after" ∧
    intText seconds = intText (max 1 ⌊wait + 999 / 1000⌋) := by
    simpa [rateLimitedResult,rateLimitHeaders,waits,names] using header
  exact intText_injective value.2

/-- The quota for a request of this size is free at a reading. -/
def Free (limiter : RateLimiter) (rows : List Row) (tenant : String) (size : Int) (reading : ℚ) :
    Prop :=
  limiter.used rows tenant reading + size ≤ limiter.limit

/-- The quota comes free within the first millisecond past a whole number of seconds. -/
def JustPast (limiter : RateLimiter) (rows : List Row) (tenant : String) (size : Int) (now : ℚ) :
    Prop :=
  ∃ seconds : Int, 1 ≤ seconds ∧ ¬ Free limiter rows tenant size (now + seconds) ∧
    ∃ reading, reading < now + seconds + 1 / 1000 ∧ now + seconds < reading ∧
    Free limiter rows tenant size reading

section Obeying
variable {tables : Unicode.Tables} {format : Json.FloatFormat} {limiter : RateLimiter}
variable {earlier between : List Operation} {request : Request}
    {contacts : List Contact} {run : Run}
variable {result : RouteResult} {again : String} {size seconds : Int}

/-- A request refused with `retry-after: s` is admitted after s seconds exactly when its quota does not
come free within the first millisecond past a whole second. -/
theorem obeyed_iff
    (retried : Retried earlier between request.tenant request.requestId again size request.now
      (request.now + seconds))
    (sized : reservationSize request.body = some size) (within : size ≤ limiter.limit)
    (answered : (route tables format limiter (table limiter earlier) request contacts run).result =
      some result)
    (header : (retryAfterName,intText seconds) ∈ result.headers) :
    (∃ readmission, (execute limiter (after (execute limiter)
        (route tables format limiter (table limiter earlier) request contacts run).admitted between)
        (.checkAndReserve request.tenant again size (request.now + seconds))).2 =
          .decided readmission ∧
      readmission.allowed = true) ↔
    ¬ JustPast limiter (table limiter earlier) request.tenant size request.now := by
  obtain ⟨same,decision,known,done,refused,shape⟩ := route_refused answered header
  obtain rfl : size = same := Option.some.inj (sized.symm.trans known)
  obtain ⟨wait,waits,free⟩ := free_iff retried.issued done refused within
  obtain ⟨readmission,second,admitted⟩ := readmitted_iff retried done refused
  have rounded := refused_header waits (shape ▸ header)
  have ahead (whole : Int) (positive : 1 ≤ whole) : request.now ≤ request.now + whole := by
    have cast : (1 : ℚ) ≤ whole := by exact_mod_cast positive
    linarith
  -- What is free when, in terms of the exact wait.
  have past : JustPast limiter (table limiter earlier) request.tenant size request.now ↔
      ∃ whole : Int, 1 ≤ whole ∧ (whole : ℚ) < wait ∧ wait < whole + 1 / 1000 := by
    constructor
    · rintro ⟨whole,positive,occupied,reading,little,passed,arrived⟩
      have late : ¬ request.now + wait ≤ request.now + whole := fun early =>
        occupied ((free _ (ahead whole positive)).mp early)
      have soon :=
        (free reading (le_of_lt (lt_of_le_of_lt (ahead whole positive) passed))).mpr arrived
      exact ⟨whole,positive,by linarith [not_le.mp late],by linarith⟩
    · rintro ⟨whole,positive,passed,little⟩
      refine ⟨whole,positive,?_,request.now + wait,by linarith,by linarith,?_⟩
      · intro early
        linarith [(free _ (ahead whole positive)).mpr early]
      · exact (free _ (by linarith [ahead whole positive])).mp le_rfl
  have enough : readmission.allowed = true ↔ wait ≤ seconds := by
    have order : request.now ≤ request.now + seconds := ahead seconds (rounded ▸ le_max_left _ _)
    rw [admitted,← free _ order]
    exact add_le_add_iff_left request.now
  rw [past,← wait_le_header_iff,← rounded,← enough]
  constructor
  · rintro ⟨other,answer,allowed⟩
    rw [second] at answer
    cases answer
    exact allowed
  · intro allowed
    exact ⟨readmission,second,allowed⟩

/-- The one row that the request that overspent leaves. -/
def overspentRow : Row := ⟨"acme","r1",49500,0,.settled⟩

/-- The request of the default limiter that is refused. -/
def refusedAt (now : ℚ) : Request := ⟨"acme","r2",now,[]⟩

theorem refusedAt_answered {now wait : ℚ}
    (done : defaultLimiter.checkAndReserve (table defaultLimiter overspent) "acme" "r2" 1025 now =
      .ok ([overspentRow],⟨false,49500,50000,none,some wait⟩)) :
    route Unicode.ascii .verbatim defaultLimiter (table defaultLimiter overspent) (refusedAt now) []
      ⟨.done,.done,.done,.unstarted⟩ =
      ⟨[overspentRow],[],some (rateLimitedResult defaultLimiter ⟨false,49500,50000,none,
        some wait⟩ 1025)⟩ :=
  route_limited rfl (by change reservationSize [] = some 1025; decide +kernel) done rfl

theorem obeyed_iff_minute : (∃ readmission, (execute defaultLimiter (after (execute defaultLimiter)
        (route Unicode.ascii .verbatim defaultLimiter (table defaultLimiter overspent)
          (refusedAt 10) []
          ⟨.done,.done,.done,.unstarted⟩).admitted [.checkAndReserve "globex" "r3" 10 20])
        (.checkAndReserve "acme" "r4" 1025 (10 + (50 : Int)))).2 = .decided readmission ∧
        readmission.allowed = true) ↔
    ¬ JustPast defaultLimiter (table defaultLimiter overspent) "acme" 1025 10 := by
  have sixty : (10 : ℚ) + (50 : Int) = 60 := by decide +kernel
  have answered := congrArg Routed.result (@refusedAt_answered 10 50 (by decide +kernel))
  apply @obeyed_iff Unicode.ascii .verbatim defaultLimiter overspent
    [.checkAndReserve "globex" "r3" 10 20]
    (refusedAt 10) [] ⟨.done,.done,.done,.unstarted⟩ _ "r4" 1025 50 _ (by decide +kernel)
    (by decide) answered
    (by decide +kernel)
  change Retried overspent _ "acme" "r2" "r4" 1025 10 (10 + (50 : Int))
  rw [sixty]
  exact overspent_retried

/-- The same request half a millisecond earlier is told to wait 50 seconds, and needs 50.0005. -/
theorem header_half_a_millisecond_early :
    ¬ ∀ (tables : Unicode.Tables) (format : Json.FloatFormat) (limiter : RateLimiter) (earlier between : List Operation)
      (request : Request) (contacts : List Contact) (run : Run) (result : RouteResult)
      (again : String) (size seconds : Int),
      Retried earlier between request.tenant request.requestId again size request.now
        (request.now + seconds) →
      reservationSize request.body = some size → size ≤ limiter.limit →
      (route tables format limiter (table limiter earlier) request contacts run).result =
        some result →
      (retryAfterName,intText seconds) ∈ result.headers →
      ∃ readmission, (execute limiter (after (execute limiter)
          (route tables format limiter (table limiter earlier) request contacts run).admitted
            between)
          (.checkAndReserve request.tenant again size (request.now + seconds))).2 =
            .decided readmission ∧
        readmission.allowed = true := by
  intro obeyed
  have early : Retried overspent [] "acme" "r2" "r4" 1025 (19999 / 2000) (19999 / 2000 +
    (50 : Int)) :=
    ⟨overspent_issued,
      by decide +kernel,by decide +kernel,by unfold Owned; decide +kernel,by decide +kernel⟩
  have routed := @refusedAt_answered (19999 / 2000) (100001 / 2000) (by decide +kernel)
  obtain ⟨readmission,answered,allowed⟩ :=
    obeyed Unicode.ascii .verbatim defaultLimiter overspent []
    (refusedAt (19999 / 2000)) [] ⟨.done,.done,.done,.unstarted⟩ _ "r4" 1025 50 early
    (by decide +kernel) (by decide)
    (congrArg Routed.result routed) (by decide +kernel)
  have refused : (execute defaultLimiter [overspentRow]
      (.checkAndReserve "acme" "r4" 1025 (19999 / 2000 + (50 : Int)))).2 =
      .decided ⟨false,49500,50000,none,some (1 / 2000)⟩ := by decide +kernel
  rw [routed] at answered
  cases answered.symm.trans refused
  contradiction

end Obeying

end QuilrMcp.Router.RetryAfter
