import QuilrMcp.Library.Trace
import QuilrMcp.Router.App

/-! What a client comes to know of the providers. Two worlds whose providers differ in nothing but what the gateway
keeps to itself cannot be told apart, by any clients and over any run. -/
namespace QuilrMcp.Router.Disclosure
open Library Library.Text
open Library.Json (Value)
open Library.Trace (seen seen_alike alike_at alike_set)
open RateLimit Providers Tokens Routing Settlement App

/-- Of a failure its category, of an error that is put down to the client its status and what it bills, and
everything of a success but its status. -/
inductive Disclosed (α : Type)
  | raised
  | failed (outcome : Outcome)
  | refused (statusCode : Nat) (billed : Option Int)
  | succeeded (content : α)

def disclosed {α : Type} (bill : α → Option Int) : Wire α → Disclosed α
  | .raised => .raised
  | .timedOut => .failed .timeout
  | .unreachable => .failed .unavailable
  | .answered statusCode content =>
    match classify statusCode with
    | .success => .succeeded content
    | .clientError => .refused statusCode (bill content)
    | outcome => .failed outcome

/-- The body of an error is read for its usage alone, and that of a streamed one not at all. -/
structure Alike (contact contact' : Contact) : Prop where
  provider : contact.provider = contact'.provider
  elapsed : contact.elapsedMs = contact'.elapsedMs
  posted : disclosed actualTokens contact.posted = disclosed actualTokens contact'.posted
  streamed : disclosed (fun _ => none) contact.streamed =
    disclosed (fun _ => none) contact'.streamed

structure SameAttempt (attempt attempt' : Attempt) : Prop where
  provider : attempt.provider = attempt'.provider
  outcome : attempt.outcome = attempt'.outcome
  elapsed : attempt.elapsedMs = attempt'.elapsedMs
  status : attempt.outcome = .clientError → attempt.statusCode = attempt'.statusCode
  body : attempt.outcome = .success → attempt.body = attempt'.body
  billed : attempt.outcome = .clientError → actualTokens attempt.body = actualTokens attempt'.body

structure SameStream (attempt attempt' : StreamAttempt) : Prop where
  recorded : SameAttempt attempt.attempt attempt'.attempt
  response : attempt.response = attempt'.response

/-- The attempts that a disclosed answer may come from. -/
inductive Posted (contact : Contact) : Disclosed Value → Option Attempt → Prop
  | raised : Posted contact .raised none
  | failed (outcome : Outcome) (goes : outcome.shouldFailover = true) (statusCode : Option Nat)
      (body : Value) :
      Posted contact (.failed outcome) (some ⟨contact.provider,outcome,statusCode,body,
        contact.elapsedMs⟩)
  | refused (statusCode : Nat) (body : Value) (billed : Option Int)
      (own : actualTokens body = billed) :
      Posted contact (.refused statusCode billed) (some ⟨contact.provider,.clientError,
        some statusCode,body,contact.elapsedMs⟩)
  | succeeded (statusCode : Nat) (body : Value) : Posted contact (.succeeded body)
      (some ⟨contact.provider,.success,some statusCode,body,contact.elapsedMs⟩)

inductive Streamed (contact : Contact) : Disclosed Response → Option StreamAttempt → Prop
  | raised : Streamed contact .raised none
  | failed (outcome : Outcome) (goes : outcome.shouldFailover = true) (statusCode : Option Nat) :
      Streamed contact (.failed outcome) (some ⟨contact.provider,outcome,statusCode,none,
        contact.elapsedMs⟩)
  | refused (statusCode : Nat) : Streamed contact (.refused statusCode none)
      (some ⟨contact.provider,.clientError,some statusCode,none,contact.elapsedMs⟩)
  | succeeded (statusCode : Nat) (response : Response) : Streamed contact (.succeeded response)
      (some ⟨contact.provider,.success,some statusCode,some response,contact.elapsedMs⟩)

theorem classify_cases (statusCode : Nat) :
    classify statusCode = .success ∨ classify statusCode = .clientError ∨
    (classify statusCode).shouldFailover = true := by
  cases classify statusCode <;> decide

theorem callProvider_posted (contact : Contact) :
    Posted contact (disclosed actualTokens contact.posted) (callProvider contact) := by
  rw [callProvider]
  cases contact.posted with
  | raised => exact .raised
  | timedOut => exact .failed .timeout rfl none .null
  | unreachable => exact .failed .unavailable rfl none .null
  | answered statusCode body =>
    simp only [disclosed]
    rcases classify_cases statusCode with good | client | goes
    · rw [good]
      exact .succeeded statusCode body
    · rw [client]
      exact .refused statusCode body _ rfl
    · generalize classify statusCode = outcome at goes
      cases outcome with
      | success => cases goes
      | clientError => cases goes
      | rateLimited => exact .failed _ goes (some statusCode) body
      | timeout => exact .failed _ goes (some statusCode) body
      | unavailable => exact .failed _ goes (some statusCode) body

theorem openProviderStream_streamed (contact : Contact) :
    Streamed contact (disclosed (fun _ => none) contact.streamed) (openProviderStream contact) := by
  rw [openProviderStream]
  cases contact.streamed with
  | raised => exact .raised
  | timedOut => exact .failed .timeout rfl none
  | unreachable => exact .failed .unavailable rfl none
  | answered statusCode response =>
    simp only [disclosed]
    generalize classify statusCode = outcome
    cases outcome with
    | success => exact .succeeded statusCode response
    | clientError => exact .refused statusCode
    | rateLimited => exact .failed .rateLimited rfl (some statusCode)
    | timeout => exact .failed .timeout rfl (some statusCode)
    | unavailable => exact .failed .unavailable rfl (some statusCode)

theorem callProvider_alike {contact contact' : Contact} (alike : Alike contact contact') :
    Option.Rel SameAttempt (callProvider contact) (callProvider contact') := by
  have first := callProvider_posted contact
  have second := callProvider_posted contact'
  obtain ⟨provider,elapsed,posted,-⟩ := alike
  rw [← posted] at second
  generalize disclosed actualTokens contact.posted = told at first second
  generalize callProvider contact = attempt at first ⊢
  generalize callProvider contact' = attempt' at second ⊢
  cases first with
  | raised =>
    cases second
    exact .none
  | failed outcome goes =>
    cases second
    obtain ⟨bad,other⟩ := (shouldFailover_iff outcome).mp goes
    exact .some ⟨provider,rfl,elapsed,fun client => absurd client other,fun good => absurd good bad,
      fun client => absurd client other⟩
  | refused statusCode body billed own =>
    cases second with
    | refused _ body' _ own' =>
      exact .some ⟨provider,rfl,elapsed,fun _ => rfl,by simp,fun _ => own.trans own'.symm⟩
  | succeeded statusCode body =>
    cases second
    exact .some ⟨provider,rfl,elapsed,by simp,fun _ => rfl,fun _ => rfl⟩

theorem openProviderStream_alike {contact contact' : Contact} (alike : Alike contact contact') :
    Option.Rel SameStream (openProviderStream contact) (openProviderStream contact') := by
  have first := openProviderStream_streamed contact
  have second := openProviderStream_streamed contact'
  obtain ⟨provider,elapsed,-,streamed⟩ := alike
  rw [← streamed] at second
  generalize disclosed (fun _ => none) contact.streamed = told at first second
  generalize openProviderStream contact = attempt at first ⊢
  generalize openProviderStream contact' = attempt' at second ⊢
  cases first with
  | raised =>
    cases second
    exact .none
  | failed outcome goes =>
    cases second
    obtain ⟨-,other⟩ := (shouldFailover_iff outcome).mp goes
    exact .some ⟨⟨provider,rfl,elapsed,fun client => absurd client other,fun _ => rfl,
      fun _ => rfl⟩,rfl⟩
  | refused statusCode =>
    cases second
    exact .some ⟨⟨provider,rfl,elapsed,fun _ => rfl,fun _ => rfl,fun _ => rfl⟩,rfl⟩
  | succeeded statusCode response =>
    cases second
    exact .some ⟨⟨provider,rfl,elapsed,
      by simp [StreamAttempt.attempt],fun _ => rfl,fun _ => rfl⟩,rfl⟩

def shownResult (result : RouteResult) : RouteResult := {result with attempts := []}

def shownFinish : Finish → Finish
  | .raised => .raised
  | .opened response result => .opened response (shownResult result)
  | .closing statement result => .closing statement (shownResult result)

section Loops
variable (decision : LimitDecision) (reservation : Reservation) (reserved : Int)

theorem exhausted_alike {attempts attempts' : List Attempt}
    (same : List.Forall₂ SameAttempt attempts attempts') :
    shownFinish (exhausted decision reservation reserved attempts) =
      shownFinish (exhausted decision reservation reserved attempts') := by
  have length : attempts.length = attempts'.length := same.length_eq
  have outcomes : attempts.map (fun attempt => (attempt.provider.name,attempt.outcome,
    attempt.elapsedMs)) =
      attempts'.map (fun attempt => (attempt.provider.name,attempt.outcome,attempt.elapsedMs)) := by
    induction same with
    | nil => rfl
    | cons first later ih => rw [List.map_cons,List.map_cons,ih later.length_eq,first.provider,
        first.outcome,first.elapsed]
  have late (attempts : List Attempt) : (timedOut attempts).length =
      ((attempts.map (fun attempt => (attempt.provider.name,attempt.outcome,
        attempt.elapsedMs))).filter
        (fun told => told.2.1 = .timeout)).length := by
    rw [timedOut,List.filter_map,List.length_map]
    rfl
  have timeouts : (timedOut attempts).length = (timedOut attempts').length := by
    rw [late,late,outcomes]
  have none_ : (timedOut attempts).isEmpty = (timedOut attempts').isEmpty := by
    rw [Bool.eq_iff_iff,List.isEmpty_iff_length_eq_zero,List.isEmpty_iff_length_eq_zero,timeouts]
  simp only [exhausted,shownFinish,shownResult,timeouts,length,outcomes,none_]

theorem clientErrorResult_alike {failed failed' : Attempt} {attempts attempts' : List Attempt}
    (same : SameAttempt failed failed') (client : failed.outcome = .clientError)
    (length : attempts.length = attempts'.length) :
    shownResult (clientErrorResult decision failed attempts) =
      shownResult (clientErrorResult decision failed' attempts') := by
  simp only [shownResult,clientErrorResult,same.status client,length]

theorem serve_alike {contacts contacts' : List Contact}
    (alike : List.Forall₂ Alike contacts contacts') {attempts attempts' : List Attempt}
    (same : List.Forall₂ SameAttempt attempts attempts') :
    shownFinish (serve decision reservation reserved contacts attempts) =
      shownFinish (serve decision reservation reserved contacts' attempts') := by
  induction alike generalizing attempts attempts' with
  | nil => exact exhausted_alike decision reservation reserved same
  | @cons contact contact' contacts contacts' first later ih =>
    have called := callProvider_alike first
    rw [serve,serve]
    generalize callProvider contact = attempt at called ⊢
    generalize callProvider contact' = attempt' at called ⊢
    cases called with
    | none => rfl
    | @some attempt attempt' known =>
      have longer : List.Forall₂ SameAttempt (attempts ++ [attempt]) (attempts' ++ [attempt']) :=
        List.rel_append same (.cons known .nil)
      have length := longer.length_eq
      simp only [← known.outcome]
      cases category : attempt.outcome with
      | success =>
        simp only [Outcome.succeeded,beq_self_eq_true,if_true,shownFinish,settleStatement,
          known.body category,shownResult,successResult,providerHeaders,known.provider,length]
      | clientError =>
        have settled : settleStatement reservation reserved attempt =
          settleStatement reservation reserved attempt' := by
          rw [settleStatement,settleStatement,known.billed category]
        exact congrArg₂ Finish.closing settled
          (clientErrorResult_alike decision known category length)
      | rateLimited => exact ih longer
      | timeout => exact ih longer
      | unavailable => exact ih longer

theorem openStream_alike (tables : Unicode.Tables) {contacts contacts' : List Contact}
    (alike : List.Forall₂ Alike contacts contacts') {attempts attempts' : List Attempt}
    (same : List.Forall₂ SameAttempt attempts attempts') :
    shownFinish (openStream decision reservation reserved tables contacts attempts) =
      shownFinish (openStream decision reservation reserved tables contacts' attempts') := by
  induction alike generalizing attempts attempts' with
  | nil => exact exhausted_alike decision reservation reserved same
  | @cons contact contact' contacts contacts' first later ih =>
    have called := openProviderStream_alike first
    rw [openStream,openStream]
    generalize openProviderStream contact = attempt at called ⊢
    generalize openProviderStream contact' = attempt' at called ⊢
    cases called with
    | none => rfl
    | @some attempt attempt' known =>
      obtain ⟨recorded,response⟩ := known
      have longer : List.Forall₂ SameAttempt (attempts ++ [attempt.attempt]) (attempts' ++
        [attempt'.attempt]) :=
        List.rel_append same (.cons recorded .nil)
      have length := longer.length_eq
      have provider : attempt.provider = attempt'.provider := recorded.provider
      have outcome : attempt.outcome = attempt'.outcome := recorded.outcome
      simp only [← outcome,← response]
      cases category : attempt.outcome with
      | success =>
        cases attempt.response with
        | none => rfl
        | some response =>
          simp only [Outcome.succeeded,beq_self_eq_true,if_true,shownFinish,shownResult,
            streamResult,providerHeaders,provider,length]
      | clientError =>
        exact congrArg (Finish.closing _)
          (clientErrorResult_alike decision recorded category length)
      | rateLimited => exact ih longer
      | timeout => exact ih longer
      | unavailable => exact ih longer

theorem dispatch_alike (tables : Unicode.Tables) (request : Routing.Request)
    {contacts contacts' : List Contact} (alike : List.Forall₂ Alike contacts contacts') :
    shownFinish (dispatch tables request decision reservation reserved contacts) =
      shownFinish (dispatch tables request decision reservation reserved contacts') := by
  rw [dispatch,dispatch]
  split_ifs
  · exact openStream_alike decision reservation reserved tables alike .nil
  · exact serve_alike decision reservation reserved alike .nil

end Loops

section Requests
variable (tables : Unicode.Tables) (format : Json.FloatFormat) (hexdigest : Bytes → Str)
    (config : Config)

theorem conclude_shown (reservation : Reservation) (reserved : Int) (run : Run) (finish : Finish) :
    conclude tables format reservation reserved run (shownFinish finish) =
      ((conclude tables format reservation reserved run finish).1,
        (conclude tables format reservation reserved run finish).2.map shownResult) := by
  cases finish with
  | raised => rfl
  | opened response result => rfl
  | closing statement result =>
    rw [shownFinish,conclude,conclude]
    cases run.closing <;> rfl

theorem route_alike (rows : List Row) (request : Routing.Request)
    {contacts contacts' : List Contact} (alike : List.Forall₂ Alike contacts contacts')
    (run : Run) :
    (route tables format config.limiter rows request contacts run).admitted =
      (route tables format config.limiter rows request contacts' run).admitted ∧
    (route tables format config.limiter rows request contacts run).statements =
      (route tables format config.limiter rows request contacts' run).statements ∧
    (route tables format config.limiter rows request contacts run).result.map shownResult =
      (route tables format config.limiter rows request contacts' run).result.map shownResult := by
  rw [route,route]
  cases reservationSize request.body with
  | none => exact ⟨rfl,rfl,rfl⟩
  | some size =>
    dsimp only
    generalize config.limiter.checkAndReserve rows request.tenant request.requestId size
      request.now = checked
    by_cases failed : run.admission = .failed
    · simp only [if_pos failed,and_self]
    · rw [if_neg failed,if_neg failed]
      cases checked with
      | error failure => exact ⟨rfl,rfl,rfl⟩
      | ok checked =>
        obtain ⟨admitted,decision⟩ := checked
        dsimp only
        split_ifs
        · exact ⟨rfl,rfl,rfl⟩
        · exact ⟨rfl,rfl,rfl⟩
        · cases decision.reservation with
          | none => exact ⟨rfl,rfl,rfl⟩
          | some reservation =>
            have same := congrArg (conclude tables format reservation size run)
              (dispatch_alike decision reservation size tables request alike)
            rw [conclude_shown,conclude_shown] at same
            exact ⟨rfl,Prod.mk.inj same⟩

/-- A reply as its client is shown it. -/
def shownReply : Reply → Reply
  | .routed result => .routed (shownResult result)
  | reply => reply

def streams : Reply → Bool
  | .routed result => result.isStream
  | _ => false

theorem respond_shown (result : RouteResult) :
    respond (shownResult result) = shownReply (respond result) := by
  obtain ⟨statusCode,body,headers,attempts,isStream,mediaType⟩ := result
  cases isStream with
  | true => rfl
  | false =>
    cases body with
    | reply fields =>
      simp only [respond,shownResult,Bool.false_eq_true,if_false]
      split_ifs <;> rfl
    | error error => rfl

theorem streams_shown (reply : Reply) : streams (shownReply reply) = streams reply := by
  cases reply <;> rfl

/-- The chunks that the relay of a request has passed on. -/
def relayed (limiter : RateLimiter) (rows : List Row) (entry : Entry) : List Bytes :=
  match reservationSize entry.request.body with
  | none => []
  | some size =>
    match dispatch tables entry.request (admission limiter rows entry.request size)
      (reservationOf entry.request size) size
        entry.contacts, entry.run.relay with
    | .opened response _, .started count _ _ => response.chunks.take count
    | _, _ => []

/-- What a client sees: the reply, and of a stream what it has read. -/
def see (state : State) : Event → Option (Reply × List Bytes)
  | .arrive arrival =>
    let handled := handleMessages tables format hexdigest config state.rows arrival
    some (shownReply handled.1,
      if streams handled.1 then handled.2.2.elim [] (relayed tables config.limiter state.rows)
      else [])
  | .commit _ => none
  | .usage request now => some (handleUsage tables hexdigest config state.rows request now,[])

end Requests

/-- The same request of a client, commit or look at the usage, with providers that are alike. -/
inductive Likewise : Event → Event → Prop
  | arrive (arrival : Arrival) (contacts : List Contact)
      (alike : List.Forall₂ Alike arrival.contacts contacts) :
      Likewise (.arrive arrival) (.arrive {arrival with contacts := contacts})
  | commit (index : Nat) : Likewise (.commit index) (.commit index)
  | usage (request : HttpRequest) (now : ℚ) : Likewise (.usage request now) (.usage request now)

structure SameEntry (entry entry' : Entry) : Prop where
  request : entry.request = entry'.request
  run : entry.run = entry'.run
  contacts : List.Forall₂ Alike entry.contacts entry'.contacts
  statements : entry.statements = entry'.statements
  committed : entry.committed = entry'.committed

structure SameState (state state' : State) : Prop where
  rows : state.rows = state'.rows
  clock : state.clock = state'.clock
  log : List.Forall₂ SameEntry state.log state'.log

section Runs
variable (tables : Unicode.Tables) (format : Json.FloatFormat) (hexdigest : Bytes → Str)
    (config : Config)

theorem relayed_alike (limiter : RateLimiter) (rows : List Row) {entry entry' : Entry}
    (same : SameEntry entry entry') :
    relayed tables limiter rows entry = relayed tables limiter rows entry' := by
  rw [relayed,relayed,same.request,same.run]
  cases reservationSize entry'.request.body with
  | none => rfl
  | some size =>
    have ends := dispatch_alike (admission limiter rows entry'.request size)
      (reservationOf entry'.request size) size tables
      entry'.request same.contacts
    dsimp only
    generalize dispatch tables entry'.request _ _ size entry.contacts = finish at ends ⊢
    generalize dispatch tables entry'.request _ _ size entry'.contacts = finish' at ends ⊢
    cases finish with
    | raised => cases finish' <;> first | rfl | cases ends
    | closing => cases finish' <;> first | rfl | cases ends
    | opened response result =>
      cases finish' with
      | raised => cases ends
      | closing => cases ends
      | opened response' result' =>
        obtain ⟨rfl,-⟩ := Finish.opened.inj ends
        cases entry'.run.relay <;> rfl

/-- A request is answered alike, takes the same room and leaves the same statements to be committed. -/
theorem handleMessages_alike (rows : List Row) (arrival : Arrival) {contacts : List Contact}
    (alike : List.Forall₂ Alike arrival.contacts contacts) :
    shownReply (handleMessages tables format hexdigest config rows arrival).1 =
      shownReply (handleMessages tables format hexdigest config rows
        {arrival with contacts := contacts}).1 ∧
    (handleMessages tables format hexdigest config rows arrival).2.1 =
      (handleMessages tables format hexdigest config rows {arrival with contacts := contacts}).2.1 ∧
    Option.Rel SameEntry (handleMessages tables format hexdigest config rows arrival).2.2
      (handleMessages tables format hexdigest config rows
        {arrival with contacts := contacts}).2.2 := by
  rw [handleMessages,handleMessages]
  cases accept tables format hexdigest config arrival.http with
  | answered reply => exact ⟨rfl,rfl,.none⟩
  | accepted tenant body forwarded =>
    dsimp only
    cases bindText tenant with
    | none => exact ⟨rfl,rfl,.none⟩
    | some tenant =>
      obtain ⟨admitted,statements,results⟩ :=
        route_alike tables format config rows (arrival.request tenant body) alike
          (admissionRun config.limiter rows (arrival.request tenant body) arrival.run)
      refine ⟨?_,admitted,.some ⟨rfl,rfl,alike,statements,rfl⟩⟩
      have shown (result : Option RouteResult) : shownReply (result.elim .raised respond) =
          (result.map shownResult).elim .raised respond := by
        cases result with
        | none => rfl
        | some result => exact (respond_shown result).symm
      exact (shown _).trans ((congrArg (Option.elim · .raised respond) results).trans
        (shown _).symm)

theorem see_alike {event event' : Event} {state state' : State} (likewise : Likewise event event')
    (same : SameState state state') :
    see tables format hexdigest config state event =
      see tables format hexdigest config state' event' := by
  cases likewise with
  | commit index => rfl
  | usage request now => rw [see,see,same.rows]
  | arrive arrival contacts alike =>
    obtain ⟨replies,-,entries⟩ :=
      handleMessages_alike tables format hexdigest config state'.rows arrival alike
    simp only [see,same.rows]
    generalize handleMessages tables format hexdigest config state'.rows arrival =
      handled at replies entries ⊢
    generalize handleMessages tables format hexdigest config state'.rows
      {arrival with contacts := contacts} = handled'
      at replies entries ⊢
    obtain ⟨reply,rows,entry⟩ := handled
    obtain ⟨reply',rows',entry'⟩ := handled'
    have read : entry.elim [] (relayed tables config.limiter state'.rows) =
        entry'.elim [] (relayed tables config.limiter state'.rows) := by
      cases entries with
      | none => rfl
      | some known => exact relayed_alike tables config.limiter state'.rows known
    dsimp only at replies ⊢
    rw [replies,← streams_shown reply,replies,streams_shown,read]

theorem storable_alike {entry entry' : Option Entry} (same : Option.Rel SameEntry entry entry') :
    entry.all (·.statements.all storable) = entry'.all (·.statements.all storable) := by
  cases same with
  | none => rfl
  | some known => exact congrArg (·.all storable) known.statements

/-- One step is possible in both worlds or in neither, and leaves them alike. -/
theorem step_alike {event event' : Event} {state state' : State} (likewise : Likewise event event')
    (same : SameState state state') :
    Option.Rel SameState (step tables format hexdigest config state event)
      (step tables format hexdigest config state' event') := by
  obtain ⟨rows,clock,log⟩ := same
  cases likewise with
  | commit index =>
    have listed := alike_at log index
    rw [step,step]
    generalize state.log[index]? = entry at listed ⊢
    generalize state'.log[index]? = entry' at listed ⊢
    cases listed with
    | none => exact .none
    | @some entry entry' known =>
      dsimp only
      rw [known.statements,known.committed,rows,clock]
      cases entry'.statements[entry'.committed]? with
      | none => exact .none
      | some statement =>
        exact .some ⟨rfl,rfl,alike_set log index ⟨known.request,known.run,known.contacts,rfl,rfl⟩⟩
  | usage request now =>
    rw [step,step,clock]
    split_ifs
    · exact .some ⟨rows,rfl,log⟩
    · exact .none
  | arrive arrival contacts alike =>
    have ids : state.log.map (·.request.requestId) = state'.log.map (·.request.requestId) := by
      refine List.forall₂_eq_eq_eq ▸ List.rel_map
        (fun entry entry' (known : SameEntry entry entry') => ?_) log
      exact congrArg Routing.Request.requestId known.request
    obtain ⟨-,admitted,entries⟩ :=
      handleMessages_alike tables format hexdigest config state'.rows arrival alike
    simp only [step,rows,clock,ids,storable_alike entries]
    split_ifs
    · refine .some ⟨admitted,rfl,List.rel_append log ?_⟩
      generalize (handleMessages tables format hexdigest config state'.rows arrival).2.2 =
        entry at entries ⊢
      generalize (handleMessages tables format hexdigest config state'.rows
        {arrival with contacts := contacts}).2.2 = entry'
        at entries ⊢
      cases entries with
      | none => exact .nil
      | some known => exact .cons known .nil
    · exact .none

theorem start_same (clock : ℚ) : SameState (.start clock) (.start clock) := ⟨rfl,rfl,.nil⟩

/-- However the requests are interleaved, the clients see no more of the providers than the answers disclose: neither
the body of an error nor the status of a failure or of a success, nor which kind of failure made a provider unavailable. -/
theorem failures_undisclosed (clock : ℚ) {events events' : List Event}
    (likewise : List.Forall₂ Likewise events events') :
    seen (step tables format hexdigest config) (see tables format hexdigest config)
      (.start clock) events =
      seen (step tables format hexdigest config) (see tables format hexdigest config)
        (.start clock) events' := by
  refine seen_alike ?_ likewise (start_same clock)
  intro event event' state state' here same
  exact ⟨see_alike tables format hexdigest config here same,
    step_alike tables format hexdigest config here same⟩

/-- The request for a greeting, with a primary provider that fails so and a second one that answers. -/
def failingOver (failure : Wire Value) : Arrival := {helloArrival with
  contacts := [⟨⟨lit "primary"⟩,5,failure,.raised⟩,
    ⟨⟨lit "secondary"⟩,7,
      .answered 200 (.dict [(lit "usage",.dict [(lit "output_tokens",.int 30)])]),.raised⟩]}

/-- A provider that cannot be reached, and one that refuses the gateway's credential and names a host. -/
theorem failures_undisclosed_unavailable : seen (step Unicode.ascii .verbatim undigested oneTenant)
      (see Unicode.ascii .verbatim undigested oneTenant) (.start 0)
        [.arrive (failingOver .unreachable),.commit 0,.usage hello 1] =
      seen (step Unicode.ascii .verbatim undigested oneTenant)
        (see Unicode.ascii .verbatim undigested oneTenant) (.start 0)
        [.arrive (failingOver (.answered 401 (.str (lit "db-7.internal")))),.commit 0,
          .usage hello 1] := by
  have alike : List.Forall₂ Alike (failingOver .unreachable).contacts
      (failingOver (.answered 401 (.str (lit "db-7.internal")))).contacts :=
    .cons ⟨rfl,rfl,rfl,rfl⟩ (.cons ⟨rfl,rfl,rfl,rfl⟩ .nil)
  exact failures_undisclosed Unicode.ascii .verbatim undigested oneTenant 0
    (.cons (.arrive _ _ alike) (.cons (.commit 0) (.cons (.usage hello 1) .nil)))

end Runs

end QuilrMcp.Router.Disclosure
