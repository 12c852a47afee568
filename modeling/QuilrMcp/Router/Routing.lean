import QuilrMcp.Router.Providers
import QuilrMcp.Router.RateLimit
import QuilrMcp.Router.Tokens
import Mathlib.Data.Rat.Floor

/-! Routing: admission control, failover, and settling the bill. Every await may be where the task
is cancelled or an exception is raised; what the database and the relay make of theirs is a parameter
of a run. A run records the statements that were committed after the admission. -/
namespace QuilrMcp.Router.Routing
open Library Library.Text
open Library.Json (Value intText lookup truthy)
open RateLimit Providers Tokens

inductive Detail
  | limited (limitTokens usedTokens requestedTokens : Int) (windowSeconds retryAfterSeconds : ℚ)
  | refused (providerStatus : Option Nat) (attempts : Nat)
  | exhausted (attempts : List (Str × Outcome × Int))

structure GatewayError where
  kind : Str
  message : Str
  detail : Detail

def rateLimitError : Str := lit "rate_limit_error"
def apiError : Str := lit "api_error"
def invalidRequestError : Str := lit "invalid_request_error"
def timeoutError : Str := lit "timeout_error"

def safeMessages : List (Str × Str) :=
  [(rateLimitError,lit "Token rate limit exceeded for this API key."),
    (apiError,lit "No model provider was able to serve this request."),
    (invalidRequestError,lit "The request could not be processed."),
    (timeoutError,lit "The request timed out before any provider responded.")]

def gatewayError (kind : Str) (detail : Detail) : GatewayError :=
  ⟨kind,(safeMessages.lookup kind).getD (lit "The request could not be completed."),detail⟩

inductive Body
  | reply (fields : List (Str × Value))
  | error (error : GatewayError)

structure RouteResult where
  statusCode : Nat
  body : Body
  headers : List (Str × Str)
  attempts : List Attempt
  isStream : Bool := false
  mediaType : Option Str := none

def rateLimitHeaders (decision : LimitDecision) : List (Str × Str) :=
  [(lit "x-ratelimit-limit-tokens",intText decision.limit),
    (lit "x-ratelimit-remaining-tokens",intText decision.remaining)] ++
  match decision.retryAfterSeconds with
  | none => []
  | some seconds => [(lit "retry-after",intText (max 1 ⌊seconds + 999 / 1000⌋))]

def providerHeaders (provider : Provider) (attempts : List Attempt) : List (Str × Str) :=
  [(lit "x-gateway-provider",provider.name),(lit "x-gateway-attempts",intText attempts.length)]

/-- The nearest integer, and of two the even one. -/
def roundHalfEven (value : ℚ) : Int :=
  let below := ⌊value⌋
  if value - below < 1 / 2 then below
  else if 1 / 2 < value - below then below + 1
  else if below % 2 = 0 then below else below + 1

def rateLimitedResult (limiter : RateLimiter) (decision : LimitDecision) (reservationSize : Int) :
    RouteResult where
  statusCode := 429
  body := .error (gatewayError rateLimitError (.limited decision.limit decision.usedTokens
    reservationSize limiter.window
    (roundHalfEven ((decision.retryAfterSeconds.getD 0) * 1000) / 1000)))
  headers := rateLimitHeaders decision
  attempts := []

def successResult (decision : LimitDecision) (attempt : Attempt) (attempts : List Attempt) :
    RouteResult where
  statusCode := 200
  body := .reply (match attempt.body with | .dict fields => fields | _ => [])
  headers := rateLimitHeaders decision ++ providerHeaders attempt.provider attempts
  attempts := attempts

def clientErrorResult (decision : LimitDecision) (failed : Attempt) (attempts : List Attempt) :
    RouteResult where
  statusCode := failed.statusCode.getD 400
  body := .error (gatewayError invalidRequestError (.refused failed.statusCode attempts.length))
  headers := rateLimitHeaders decision
  attempts := attempts

def streamResult (tables : Unicode.Tables) (decision : LimitDecision) (provider : Provider)
    (response : Response) (attempts : List Attempt) : RouteResult where
  statusCode := 200
  body := .reply []
  headers := rateLimitHeaders decision ++ providerHeaders provider attempts
  attempts := attempts
  isStream := true
  mediaType :=
    let media :=
      tables.strip (Unicode.partition 59 (response.contentType.getD (lit "text/event-stream"))).1
    some (if media.isEmpty then lit "text/event-stream" else media)

inductive Statement
  | settle (reservation : Reservation) (actualTokens : Int)
  | release (reservation : Reservation)
  deriving DecidableEq

def Statement.apply (rows : List Row) : Statement → List Row
  | .settle reservation actualTokens => RateLimit.settle rows reservation actualTokens
  | .release reservation => RateLimit.release rows reservation

def Statement.reservation : Statement → Reservation
  | .settle reservation _ => reservation
  | .release reservation => reservation

/-- The request's loop over the providers ends with an exception, with an open stream, or with a
statement and the result that is returned once it is committed. -/
inductive Finish
  | raised
  | opened (response : Response) (result : RouteResult)
  | closing (statement : Statement) (result : RouteResult)

def Finish.result : Finish → Option RouteResult
  | .raised => none
  | .opened _ result => some result
  | .closing _ result => some result

section Loops
variable (decision : LimitDecision) (reservation : Reservation) (reserved : Int)

/-- The real cost, or the estimate where the provider reported none. -/
def settleStatement (attempt : Attempt) : Statement :=
  .settle reservation ((actualTokens attempt.body).getD reserved)

def timedOut (attempts : List Attempt) : List Attempt :=
  attempts.filter (fun attempt => attempt.outcome = .timeout)

/-- Every provider failed. A timeout may still be billed, so it is charged. -/
def exhausted (attempts : List Attempt) : Finish :=
  let everyTimeout := (timedOut attempts).length = attempts.length
  .closing (if (timedOut attempts).isEmpty then .release reservation else .settle
    reservation reserved)
    { statusCode := if everyTimeout then 504 else 502
      body := .error (gatewayError (if everyTimeout then timeoutError else apiError)
        (.exhausted (attempts.map (fun attempt => (attempt.provider.name,attempt.outcome,
          attempt.elapsedMs)))))
      headers := rateLimitHeaders decision
      attempts := attempts }

/-- The loop of `route`. -/
def serve : List Contact → List Attempt → Finish
  | [], attempts => exhausted decision reservation reserved attempts
  | contact::contacts, attempts =>
    match callProvider contact with
    | none => .raised
    | some attempt =>
      let attempts := attempts ++ [attempt]
      if attempt.outcome.succeeded then
        .closing (settleStatement reservation reserved attempt)
          (successResult decision attempt attempts)
      else if !attempt.outcome.shouldFailover then
        .closing (settleStatement reservation reserved attempt)
          (clientErrorResult decision attempt attempts)
      else serve contacts attempts

/-- The loop of `_route_stream`. Closing an attempt that holds no response awaits nothing. -/
def openStream (tables : Unicode.Tables) : List Contact → List Attempt → Finish
  | [], attempts => exhausted decision reservation reserved attempts
  | contact::contacts, attempts =>
    match openProviderStream contact with
    | none => .raised
    | some streamAttempt =>
      let attempts := attempts ++ [streamAttempt.attempt]
      if streamAttempt.outcome.succeeded then
        -- A success always holds its response.
        match streamAttempt.response with
        | none => .raised
        | some response =>
          .opened response (streamResult tables decision streamAttempt.provider response attempts)
      else if !streamAttempt.outcome.shouldFailover then
        .closing (.settle reservation reserved)
          (clientErrorResult decision streamAttempt.attempt attempts)
      else openStream tables contacts attempts

end Loops

/-- What becomes of an await of `Store.execute`: it returns, it raises and nothing is committed, or it
is cancelled while the worker thread goes on and commits. -/
inductive Fate
  | done
  | failed
  | abandoned
  deriving DecidableEq

def Fate.commits (fate : Fate) : Bool := fate ≠ .failed

/-- What becomes of the relay: closed before its first step, or read for so many chunks and then ended,
closed or cancelled; whether closing the response returns; and what becomes of its settle. -/
inductive Relay
  | unstarted
  | started (count : Nat) (closes : Bool) (settling : Fate)

structure Run where
  admission : Fate
  closing : Fate
  cleanup : Fate
  relay : Relay

structure Request where
  tenant : String
  requestId : String
  now : ℚ
  body : List (Str × Value)

/-- The table after the admission, the statements committed since, and the result, if no exception
left `route`. -/
structure Routed where
  admitted : List Row
  statements : List Statement
  result : Option RouteResult

section Route
variable (tables : Unicode.Tables) (format : Json.FloatFormat) (limiter : RateLimiter)

/-- What the collector has seen of the first `count` chunks. -/
def collected (response : Response) (count : Nat) : StreamUsageCollector :=
  (response.chunks.take count).foldl (fun collector chunk =>
    collector.feed tables format chunk) .new

/-- The `finally` of the relay; a generator that never started has none. -/
def relayStatements (reservation : Reservation) (reserved : Int) (response : Response) :
    Relay → List Statement
  | .unstarted => []
  | .started count closes settling =>
    if closes && settling.commits then
      [.settle reservation ((collected tables format response count).total.getD reserved)]
    else []

/-- The handler of `BaseException`. -/
def cleanup (reservation : Reservation) (run : Run) : List Statement :=
  if run.cleanup.commits then [.release reservation] else []

def conclude (reservation : Reservation) (reserved : Int) (run : Run) :
    Finish → List Statement × Option RouteResult
  | .raised => (cleanup reservation run,none)
  | .opened response result =>
    (relayStatements tables format reservation reserved response run.relay,some result)
  | .closing statement result =>
    match run.closing with
    | .done => ([statement],some result)
    | .failed => (cleanup reservation run,none)
    | .abandoned => (statement::cleanup reservation run,none)

def wantsStream (body : List (Str × Value)) : Bool :=
  truthy ((lookup (lit "stream") body).getD .null)

def dispatch (request : Request) (decision : LimitDecision) (reservation : Reservation)
    (reserved : Int) (contacts : List Contact) : Finish :=
  if wantsStream request.body then openStream decision reservation reserved tables contacts []
  else serve decision reservation reserved contacts []

/-- `Router.route`, and its relay to the end. -/
def route (rows : List Row) (request : Request) (contacts : List Contact) (run : Run) : Routed :=
  match reservationSize request.body with
  | none => ⟨rows,[],none⟩
  | some size =>
    if run.admission = .failed then ⟨rows,[],none⟩
    else match limiter.checkAndReserve rows request.tenant request.requestId size request.now with
      | .error _ => ⟨rows,[],none⟩
      | .ok (admitted,decision) =>
        if run.admission = .abandoned then ⟨admitted,[],none⟩
        else if !decision.allowed then ⟨admitted,[],some (rateLimitedResult limiter decision size)⟩
        else match decision.reservation with
          | none => ⟨admitted,[],none⟩
          | some reservation =>
            let ended := conclude tables format reservation size run
              (dispatch tables request decision reservation size contacts)
            ⟨admitted,ended.1,ended.2⟩

end Route

def decides (call : Contact → Option Attempt) (contact : Contact) : Bool :=
  match call contact with
  | none => true
  | some attempt => !attempt.outcome.shouldFailover

/-- The attempts that were failed over. -/
def tried (call : Contact → Option Attempt) (contacts : List Contact) : List Attempt :=
  (contacts.takeWhile (fun contact => !decides call contact)).filterMap call

def deciding (call : Contact → Option Attempt) (contacts : List Contact) : Option Contact :=
  contacts.find? (decides call)

/-- A streaming attempt without its response. -/
def callStream (contact : Contact) : Option Attempt :=
  (openProviderStream contact).map StreamAttempt.attempt

theorem decided_cases {call : Contact → Option Attempt} {contact : Contact} {attempt : Attempt}
    (decisive : decides call contact = true) (called : call contact = some attempt) :
    attempt.outcome = .success ∨ attempt.outcome = .clientError := by
  rw [decides,called] at decisive
  by_contra neither
  rw [not_or] at neither
  have goes := (shouldFailover_iff attempt.outcome).mpr neither
  simp [goes] at decisive

section Spec
variable (decision : LimitDecision) (reservation : Reservation) (reserved : Int)

/-- What `serve` makes of the contact that decides. -/
def served (attempts : List Attempt) (contact : Contact) : Finish :=
  match callProvider contact with
  | none => .raised
  | some attempt => .closing (settleStatement reservation reserved attempt)
    (if attempt.outcome = .success then successResult decision attempt (attempts ++ [attempt])
      else clientErrorResult decision attempt (attempts ++ [attempt]))

theorem serve_eq (contacts : List Contact) (attempts : List Attempt) :
    serve decision reservation reserved contacts attempts =
      match deciding callProvider contacts with
      | none => exhausted decision reservation reserved (attempts ++ tried callProvider contacts)
      | some contact =>
        served decision reservation reserved (attempts ++ tried callProvider contacts) contact := by
  induction contacts generalizing attempts with
  | nil => simp [serve,deciding,tried]
  | cons contact contacts ih =>
    cases decisive : decides callProvider contact with
    | true =>
      have first : deciding callProvider (contact::contacts) = some contact := by
        simp [deciding,decisive]
      have none_ : tried callProvider (contact::contacts) = [] := by simp [tried,decisive]
      rw [first,none_,List.append_nil,serve]
      simp only [served]
      cases called : callProvider contact with
      | none => rfl
      | some attempt =>
        rcases decided_cases decisive called with good | client
        · simp [good,Outcome.succeeded]
        · simp [client,Outcome.succeeded,Outcome.shouldFailover]
    | false =>
      have later : deciding callProvider (contact::contacts) = deciding callProvider contacts := by
        simp [deciding,decisive]
      cases called : callProvider contact with
      | none => simp [decides,called] at decisive
      | some attempt =>
        have goes : attempt.outcome.shouldFailover = true := by
          simpa [decides,called] using decisive
        have onward := (shouldFailover_iff attempt.outcome).mp goes
        have more : tried callProvider (contact::contacts) =
          attempt::tried callProvider contacts := by
          simp [tried,decisive,called]
        rw [later,more,serve,called]
        simp only [Outcome.succeeded,beq_iff_eq,onward.1,if_false,goes,Bool.not_true,
          Bool.false_eq_true]
        rw [ih,List.append_assoc,List.singleton_append]

/-- What `openStream` makes of the contact that decides. -/
def openedBy (tables : Unicode.Tables) (attempts : List Attempt) (contact : Contact) : Finish :=
  match openProviderStream contact with
  | none => .raised
  | some streamAttempt =>
    match streamAttempt.response with
    | some response =>
      .opened response (streamResult tables decision streamAttempt.provider response (attempts ++
        [streamAttempt.attempt]))
    | none => .closing (.settle reservation reserved)
        (clientErrorResult decision streamAttempt.attempt (attempts ++ [streamAttempt.attempt]))

theorem openStream_eq (tables : Unicode.Tables) (contacts : List Contact)
    (attempts : List Attempt) :
    openStream decision reservation reserved tables contacts attempts =
      match deciding callStream contacts with
      | none => exhausted decision reservation reserved (attempts ++ tried callStream contacts)
      | some contact => openedBy decision reservation reserved tables (attempts ++
          tried callStream contacts) contact := by
  induction contacts generalizing attempts with
  | nil => simp [openStream,deciding,tried]
  | cons contact contacts ih =>
    cases decisive : decides callStream contact with
    | true =>
      have first : deciding callStream (contact::contacts) = some contact := by
        simp [deciding,decisive]
      have none_ : tried callStream (contact::contacts) = [] := by simp [tried,decisive]
      rw [first,none_,List.append_nil,openStream]
      simp only [openedBy]
      cases called : openProviderStream contact with
      | none => rfl
      | some streamAttempt =>
        have known : callStream contact = some streamAttempt.attempt := by
          rw [callStream,called,Option.map_some]
        have holds := openProviderStream_response called
        rcases decided_cases decisive known with good | client
        · have good : streamAttempt.outcome = .success := good
          obtain ⟨response,held⟩ := Option.isSome_iff_exists.mp (holds.mpr good)
          simp [good,Outcome.succeeded,held]
        · have client : streamAttempt.outcome = .clientError := client
          have free : streamAttempt.response = none := by
            rw [← Option.not_isSome_iff_eq_none,holds,client]
            decide
          simp [client,Outcome.succeeded,Outcome.shouldFailover,free]
    | false =>
      have later : deciding callStream (contact::contacts) = deciding callStream contacts := by
        simp [deciding,decisive]
      cases called : openProviderStream contact with
      | none => simp [decides,callStream,called] at decisive
      | some streamAttempt =>
        have known : callStream contact = some streamAttempt.attempt := by
          rw [callStream,called,Option.map_some]
        have goes : streamAttempt.outcome.shouldFailover = true := by
          simpa [decides,known,StreamAttempt.attempt] using decisive
        have onward := (shouldFailover_iff streamAttempt.outcome).mp goes
        have more : tried callStream (contact::contacts) =
          streamAttempt.attempt::tried callStream contacts := by
          simp [tried,decisive,known]
        rw [later,more,openStream,called]
        simp only [Outcome.succeeded,beq_iff_eq,onward.1,if_false,goes,Bool.not_true,
          Bool.false_eq_true]
        rw [ih,List.append_assoc,List.singleton_append]

end Spec

end QuilrMcp.Router.Routing
