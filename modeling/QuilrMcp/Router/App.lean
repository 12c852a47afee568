import QuilrMcp.Library.Bounded
import QuilrMcp.Library.JsonLines
import QuilrMcp.Library.Rendering
import QuilrMcp.Router.Auth
import QuilrMcp.Router.Eviction
import QuilrMcp.Router.Failover
import QuilrMcp.Router.Headers
import QuilrMcp.Router.Stored

/-! The HTTP surface of the router. Requests are in flight together: one is admitted when it arrives, and the
statements that its providers' answers come to are committed later, in any order. -/
namespace QuilrMcp.Router.App
open Library Library.Text
open Library.Json (Value lookup truthy lastWins)
open Library.Trace (run run_cons run_invariant)
open Auth RateLimit Providers Tokens Routing Settlement

def maxBodyBytes : Nat := 4194304

/-- A request as the framework hands it on. The server has checked that the declared length is a number. -/
structure HttpRequest where
  headers : List (Str × Str)
  contentLength : Option Nat
  chunks : List Bytes

structure Config where
  limiter : RateLimiter
  tenants : List (Str × Str)
  allowUnauthenticatedTenants : Bool := false

/-- `raised` is a 500 of the server. -/
inductive Reply
  | refused (status : Nat) (message : Str)
  | routed (result : RouteResult)
  | usage (usedTokens limitTokens remainingTokens : Int)
  | raised

section Requests
variable (tables : Unicode.Tables) (format : Json.FloatFormat) (hexdigest : Bytes → Str)
    (config : Config)

def readBoundedBody (request : HttpRequest) (limit : Nat) : Option Bytes :=
  Bounded.readBounded request.contentLength limit request.chunks

def header (name : Str) (request : HttpRequest) : Option Str :=
  (Headers.incoming request.headers).lookup name

def authenticate (request : HttpRequest) : Except AuthFailure Tenant :=
  (extractApiKey tables (header (lit "x-api-key") request)
    (header (lit "authorization") request)).bind (fun apiKey =>
    resolveTenant hexdigest apiKey config.tenants config.allowUnauthenticatedTenants)

/-- What `json.loads` of the body raises: a `JSONDecodeError`, or a `ValueError` that is none. -/
inductive LoadFailure
  | notJson
  | uncaught

def loadBody (raw : Bytes) : Except LoadFailure Value :=
  if raw.isEmpty then .ok (.dict [])
  else match Encoding.decodeDetected raw with
    | none => .error .uncaught
    | some text =>
      match Json.loads format lastWins text with
      | .ok body => .ok body
      | .error (.syntaxError _) => .error .notJson
      | .error _ => .error .uncaught

/-- A text that the database binds: a surrogate cannot be encoded. -/
def bindText (text : Str) : Option String :=
  if text.all (fun code => decide (code.isValidChar)) then
    some (String.ofList (text.map Char.ofNat)) else none

inductive Accepted
  | answered (reply : Reply)
  | accepted (tenant : Str) (body : List (Str × Value)) (forwarded : List (Str × Str))

/-- `handle_messages`, up to the call of `route`. -/
def accept (request : HttpRequest) : Accepted :=
  match authenticate tables hexdigest config request with
  | .error (.authError detail) => .answered (.refused 401 detail)
  | .error .unicodeEncodeError => .answered .raised
  | .ok tenant =>
    match readBoundedBody request maxBodyBytes with
    | none => .answered (.refused 413 (lit "Request body exceeds the configured limit."))
    | some raw =>
      match loadBody format raw with
      | .error .notJson => .answered (.refused 400 (lit "Request body must be valid JSON."))
      | .error .uncaught => .answered .raised
      | .ok (.dict body) =>
        if truthy ((lookup (lit "messages") body).getD .null) then
          .accepted tenant.id body (Headers.forwarded request.headers)
        else .answered (.refused 400 (lit "Request body must be an object containing 'messages'."))
      | .ok _ => .answered
          (.refused 400 (lit "Request body must be an object containing 'messages'."))

/-- The framework cannot write every JSON value. The bodies of errors are texts and numbers of the gateway's own. -/
def respond (result : RouteResult) : Reply :=
  if result.isStream then .routed result
  else match result.body with
    | .reply fields => if (Json.render (.dict fields)).isSome then .routed result else .raised
    | .error _ => .routed result

def handleUsage (rows : List Row) (request : HttpRequest) (now : ℚ) : Reply :=
  match authenticate tables hexdigest config request with
  | .error (.authError detail) => .refused 401 detail
  | .error .unicodeEncodeError => .raised
  | .ok tenant =>
    match bindText tenant.id with
    | none => .raised
    | some tenant =>
      match Stored.used config.limiter rows tenant now with
      | .error _ => .raised
      | .ok used => .usage used config.limiter.limit (max 0 (config.limiter.limit - used))

/-- A request with what `uuid4`, the clock, the providers and its awaits give to it. -/
structure Arrival where
  http : HttpRequest
  requestId : String
  now : ℚ
  contacts : List Contact
  run : Run

def Arrival.request (arrival : Arrival) (tenant : String) (body : List (Str × Value)) :
    Routing.Request :=
  ⟨tenant,arrival.requestId,arrival.now,body⟩

/-- A request that was routed: the row that it was admitted with, and the statements about it, of which the first
have been committed. -/
structure Entry where
  request : Routing.Request
  contacts : List Contact
  run : Run
  initial : List Row
  statements : List Statement
  committed : Nat

def Entry.rows (entry : Entry) : List Row :=
  applyAll entry.initial (entry.statements.take entry.committed)

/-- What the request is charged as things stand. -/
def Entry.charge (entry : Entry) : Int := (entry.rows.map Row.tokens).sum

structure State where
  rows : List Row
  clock : ℚ
  log : List Entry

def State.start (clock : ℚ) : State := ⟨[],clock,[]⟩

/-- Where `check_and_reserve` raises, nothing is admitted. -/
def admissionRun (limiter : RateLimiter) (rows : List Row) (request : Routing.Request) (run : Run) :
    Run :=
  match reservationSize request.body with
  | none => run
  | some size =>
    match Stored.checkAndReserve limiter rows request.tenant request.requestId size request.now with
    | .error _ => {run with admission := .failed}
    | .ok _ => run

/-- `handle_messages`: the reply, the table after the admission, and what is to come. -/
def handleMessages (rows : List Row) (arrival : Arrival) : Reply × List Row × Option Entry :=
  match accept tables format hexdigest config arrival.http with
  | .answered reply => (reply,rows,none)
  | .accepted tenant body _ =>
    match bindText tenant with
    | none => (.raised,rows,none)
    | some tenant =>
      let request := arrival.request tenant body
      let run := admissionRun config.limiter rows request arrival.run
      let routed := route tables format config.limiter rows request arrival.contacts run
      (routed.result.elim .raised respond,routed.admitted,
        some ⟨request,arrival.contacts,run,routed.admitted.filter (·.requestId = request.requestId),
          routed.statements,0⟩)

inductive Event
  | arrive (arrival : Arrival)
  | commit (index : Nat)
  | usage (request : HttpRequest) (now : ℚ)

/-- What the statement writes is in the range of the column. -/
def storable : Statement → Bool
  | .settle _ actualTokens => Stored.fits actualTokens
  | .release _ => true

/-- The clock does not run backwards, every request id is new, and the await of a statement that cannot be bound
does not return. -/
def step (state : State) : Event → Option State
  | .arrive arrival =>
    let handled := handleMessages tables format hexdigest config state.rows arrival
    if state.clock ≤ arrival.now ∧ arrival.requestId ∉ state.log.map (·.request.requestId) ∧
        handled.2.2.all (·.statements.all storable) then
      some ⟨handled.2.1,arrival.now,state.log ++ handled.2.2.toList⟩
    else none
  | .commit index =>
    match state.log[index]? with
    | none => none
    | some entry =>
      match entry.statements[entry.committed]? with
      | none => none
      | some statement =>
        some ⟨statement.apply state.rows,state.clock,
          state.log.set index {entry with committed := entry.committed + 1}⟩
  | .usage _ now => if state.clock ≤ now then some {state with clock := now} else none

end Requests

/-- What a tenant is charged for the requests of the window. -/
def spent (limiter : RateLimiter) (log : List Entry) (tenant : String) (now : ℚ) : Int :=
  ((log.filter (fun entry => entry.request.tenant = tenant ∧
    now - limiter.window < entry.request.now)).map Entry.charge).sum

theorem apply_append (statement : Statement) (first second : List Row) :
    statement.apply (first ++ second) = statement.apply first ++ statement.apply second := by
  cases statement with
  | settle reservation amount => exact List.map_append
  | release reservation => exact List.filter_append _ _

/-- A statement leaves the rows of other requests alone. -/
theorem apply_others {statement : Statement} {rows : List Row}
    (others : ∀ row ∈ rows, row.requestId ≠ statement.reservation.requestId) :
    statement.apply rows = rows := by
  cases statement with
  | settle reservation amount =>
    refine (List.map_congr_left (fun row member => ?_)).trans (List.map_id rows)
    exact if_neg (others row member)
  | release reservation =>
    refine List.filter_eq_self.mpr (fun row member => ?_)
    have other := others row member
    simpa [Statement.reservation] using other

theorem evict_apply (limiter : RateLimiter) (statement : Statement) (rows : List Row) (now : ℚ) :
    limiter.evict (statement.apply rows) now = statement.apply (limiter.evict rows now) := by
  cases statement with
  | settle reservation amount => exact Eviction.evict_settle limiter rows reservation amount now
  | release reservation => exact Eviction.evict_release limiter rows reservation now

theorem evict_append (limiter : RateLimiter) (first second : List Row) (now : ℚ) :
    limiter.evict (first ++ second) now = limiter.evict first now ++ limiter.evict second now :=
      List.filter_append _ _

/-- A statement keeps whose row it is and when it was written. -/
theorem apply_keeps {statement : Statement} {rows : List Row} {row : Row}
    (present : row ∈ statement.apply rows) :
    ∃ before ∈ rows, before.requestId = row.requestId ∧ before.tenant = row.tenant ∧
    before.createdAt = row.createdAt := by
  cases statement with
  | settle reservation amount =>
    obtain ⟨before,member,rfl⟩ := List.mem_map.mp present
    refine ⟨before,member,?_⟩
    split_ifs <;> exact ⟨rfl,rfl,rfl⟩
  | release reservation => exact ⟨row,(List.mem_filter.mp present).1,rfl,rfl,rfl⟩

/-- The row and the statements of an entry are its request's own. -/
structure Entry.Own (entry : Entry) : Prop where
  initial : ∀ row ∈ entry.initial, row.requestId = entry.request.requestId ∧
    row.tenant = entry.request.tenant ∧ row.createdAt = entry.request.now
  statements : ∀ statement ∈ entry.statements, statement.reservation.requestId =
    entry.request.requestId

theorem Entry.Own.rows {entry : Entry} (own : entry.Own) :
    ∀ row ∈ entry.rows, row.requestId = entry.request.requestId ∧
    row.tenant = entry.request.tenant ∧ row.createdAt = entry.request.now := by
  have kept (statements : List Statement) (rows : List Row) (before : ∀ row ∈ rows, row.requestId =
    entry.request.requestId ∧
      row.tenant = entry.request.tenant ∧ row.createdAt = entry.request.now) :
      ∀ row ∈ applyAll rows statements, row.requestId = entry.request.requestId ∧
      row.tenant = entry.request.tenant ∧
        row.createdAt = entry.request.now := by
    induction statements generalizing rows with
    | nil => exact before
    | cons statement statements ih =>
      refine ih _ (fun row present => ?_)
      obtain ⟨origin,member,id,tenant,createdAt⟩ := apply_keeps present
      rw [← id,← tenant,← createdAt]
      exact before origin member
  exact kept _ _ own.initial

/-- The sum over the table is the sum over the log. -/
theorem used_spent {limiter : RateLimiter} {log : List Entry} (own : ∀ entry ∈ log, entry.Own)
    (tenant : String) (now : ℚ) :
    limiter.used (log.flatMap Entry.rows) tenant now = spent limiter log tenant now := by
  induction log with
  | nil => rfl
  | cons entry log ih =>
    obtain ⟨first,later⟩ := List.forall_mem_cons.mp own
    have rest := ih later
    rw [RateLimiter.used,RateLimiter.live] at rest ⊢
    rw [List.flatMap_cons,List.filter_append,List.map_append,List.sum_append,rest,spent,spent,
      List.filter_cons]
    have rows := first.rows
    by_cases counted : entry.request.tenant = tenant ∧ now - limiter.window < entry.request.now
    · rw [if_pos (by simpa using counted),List.map_cons,List.sum_cons,Entry.charge]
      congr 2
      rw [List.filter_eq_self.mpr]
      intro row member
      obtain ⟨-,owner,written⟩ := rows row member
      simpa [owner,written] using counted
    · rw [if_neg (by simpa using counted),List.filter_eq_nil_iff.mpr]
      · rw [List.map_nil,List.sum_nil,Int.zero_add]
      · intro row member
        obtain ⟨-,owner,written⟩ := rows row member
        simpa [owner,written] using counted

section Steps
variable (tables : Unicode.Tables) (format : Json.FloatFormat) (hexdigest : Bytes → Str)
    (config : Config)

/-- The row that a request is admitted with. -/
def reservedRow (request : Routing.Request) (size : Int) : Row :=
  ⟨request.tenant,request.requestId,size,request.now,.reserved⟩

/-- How the admission of a request ends whose id is new. -/
inductive Admits (limiter : RateLimiter) (rows : List Row) (request : Routing.Request) (run : Run) :
    Routed → Prop
  | raised (why : reservationSize request.body = none ∨ run.admission = .failed) :
      Admits limiter rows request run ⟨rows,[],none⟩
  | denied (size : Int) (sized : reservationSize request.body = some size)
      (awaited : run.admission ≠ .failed)
      (crowded : limiter.limit < limiter.used rows request.tenant request.now + size) :
      Admits limiter rows request run ⟨limiter.evict rows request.now,[],if run.admission =
        .abandoned then none
        else some (rateLimitedResult limiter ⟨false,limiter.used rows request.tenant request.now,
          limiter.limit,none,some (limiter.retryAfter rows request.tenant request.now size)⟩ size)⟩
  | admitted (size : Int) (sized : reservationSize request.body = some size)
      (awaited : run.admission ≠ .failed)
      (room : limiter.used rows request.tenant request.now + size ≤ limiter.limit)
      (statements : List Statement)
      (own : ∀ statement ∈ statements, statement.reservation = reservationOf request size)
      (result : Option RouteResult) :
      Admits limiter rows request run ⟨limiter.evict rows request.now ++ [reservedRow request size],
        statements,result⟩

/-- The decision that admits a request. -/
def admission (limiter : RateLimiter) (rows : List Row) (request : Routing.Request) (size : Int) :
    LimitDecision :=
  ⟨true,limiter.used rows request.tenant request.now + size,limiter.limit,
    some (reservationOf request size),none⟩

theorem room_admitted {limiter : RateLimiter} {rows : List Row}
    {request : Routing.Request} {size : Int} (fresh : request.requestId ∉ rows.map Row.requestId)
    (sized : reservationSize request.body = some size)
    (room : limiter.used rows request.tenant request.now + size ≤ limiter.limit) :
    Admitted limiter rows request size (limiter.evict rows request.now ++
      [reservedRow request size])
      (admission limiter rows request size) := by
  have unknown : request.requestId ∉ (limiter.evict rows request.now).map Row.requestId := by
    intro present
    obtain ⟨row,member,same⟩ := List.mem_map.mp present
    exact fresh (same ▸ List.mem_map_of_mem (List.mem_filter.mp member).1)
  refine ⟨sized,?_,rfl⟩
  simp only [RateLimiter.checkAndReserve,used_evict,if_neg (not_lt.mpr room),RateLimit.insert,
    if_neg unknown]
  rfl

theorem checkAndReserve_fresh (limiter : RateLimiter) {rows : List Row} {requestId : String}
    (fresh : requestId ∉ rows.map Row.requestId) (tenant : String) (size : Int) (now : ℚ) :
    ∃ outcome, limiter.checkAndReserve rows tenant requestId size now = .ok outcome := by
  have unknown : requestId ∉ (limiter.evict rows now).map Row.requestId :=
    fun present => fresh (List.map_subset _ List.filter_sublist.subset present)
  simp only [RateLimiter.checkAndReserve,RateLimit.insert,if_neg unknown]
  split_ifs
  · exact ⟨_,rfl⟩
  · exact ⟨_,rfl⟩

theorem admissionRun_eq {limiter : RateLimiter} {rows : List Row}
    {request : Routing.Request} {size : Int} (fresh : request.requestId ∉ rows.map Row.requestId)
    (sized : reservationSize request.body = some size) (run : Run) :
    admissionRun limiter rows request run =
      if Stored.Overflows limiter rows (.checkAndReserve request.tenant request.requestId size
        request.now) then
        {run with admission := .failed}
      else run := by
  obtain ⟨outcome,returned⟩ := checkAndReserve_fresh limiter fresh request.tenant size request.now
  simp only [admissionRun,sized,Stored.checkAndReserve_eq,returned]
  by_cases overflows : Stored.Overflows limiter rows
    (.checkAndReserve request.tenant request.requestId size request.now)
  · obtain ⟨failure,failed⟩ := Option.isSome_iff_exists.mp overflows
    rw [if_pos overflows,failed]
    rfl
  · rw [if_neg overflows,Option.not_isSome_iff_eq_none.mp overflows]
    rfl

theorem route_admits (limiter : RateLimiter) {rows : List Row} {request : Routing.Request}
    (fresh : request.requestId ∉ rows.map Row.requestId) (contacts : List Contact) (run : Run) :
    Admits limiter rows request run (route tables format limiter rows request contacts run) := by
  cases sized : reservationSize request.body with
  | none =>
    have shape : route tables format limiter rows request contacts run = ⟨rows,[],none⟩ := by
      rw [route,sized]
    exact shape ▸ .raised (Or.inl sized)
  | some size =>
    by_cases awaited : run.admission = .failed
    · have shape : route tables format limiter rows request contacts run = ⟨rows,[],none⟩ := by
        simp only [route,sized,if_pos awaited]
      exact shape ▸ .raised (Or.inr awaited)
    · by_cases crowded : limiter.used rows request.tenant request.now + size > limiter.limit
      · have denied : limiter.checkAndReserve rows request.tenant request.requestId
          size request.now =
            .ok (limiter.evict rows request.now,⟨false,limiter.used rows request.tenant request.now,
              limiter.limit,none,
              some (limiter.retryAfter rows request.tenant request.now size)⟩) := by
          have wait : limiter.retryAfter (limiter.evict rows request.now) request.tenant
            request.now size =
              limiter.retryAfter rows request.tenant request.now size := by
            rw [RateLimiter.retryAfter,live_evict,RateLimiter.retryAfter]
          simp only [RateLimiter.checkAndReserve,used_evict,wait,if_pos crowded]
          rfl
        have shape : Admits limiter rows request run _ := .denied size sized awaited crowded
        by_cases cut : run.admission = .abandoned
        · simpa only [route,sized,awaited,if_false,denied,if_pos cut] using shape
        · simpa only [route,sized,awaited,if_false,denied,if_neg cut,Bool.not_false,
            if_true] using shape
      · have entry := room_admitted fresh sized (not_lt.mp crowded)
        have inserted := entry.inserted
        have own := @statements_own tables format limiter rows _ request size _ contacts run entry
          (by simpa [Fate.commits] using awaited)
        have admitted : (route tables format limiter rows request contacts run).admitted =
            limiter.evict rows request.now ++ [reservedRow request size] := by
          by_cases cut : run.admission = .abandoned
          · simp only [route,sized,awaited,if_false,inserted,if_pos cut]
          · simp only [route,sized,awaited,if_false,inserted,if_neg cut,admission,Bool.not_true,
              Bool.false_eq_true]
        have shape := Admits.admitted size sized awaited (not_lt.mp crowded) _ own
          (route tables format limiter rows request contacts run).result
        rw [← admitted] at shape
        exact shape

/-- The entry is what routing its request came to. -/
def Entry.Routed (entry : Entry) : Prop :=
  ∃ rows, entry.request.requestId ∉ rows.map Row.requestId ∧
  entry.initial =
    (route tables format config.limiter rows entry.request entry.contacts entry.run).admitted.filter
    (·.requestId = entry.request.requestId) ∧
  entry.statements =
    (route tables format config.limiter rows entry.request entry.contacts entry.run).statements

variable {tables format config}

theorem evict_others (limiter : RateLimiter) {rows : List Row} {requestId : String}
    (fresh : requestId ∉ rows.map Row.requestId) (now : ℚ) :
    (limiter.evict rows now).filter (·.requestId = requestId) = [] ∧
    rows.filter (·.requestId = requestId) = [] := by
  have others : ∀ row ∈ rows, row.requestId ≠ requestId :=
    fun row member same => fresh (same ▸ List.mem_map_of_mem member)
  refine ⟨List.filter_eq_nil_iff.mpr (fun row member => ?_),
    List.filter_eq_nil_iff.mpr (fun row member => ?_)⟩
  · simpa using others row (List.mem_filter.mp member).1
  · simpa using others row member

/-- What the admission leaves: nothing of the request's own, or its row and statements about it. -/
theorem admits_own {limiter : RateLimiter} {rows : List Row} {request : Routing.Request} {run : Run}
    {routed : Routed} (fresh : request.requestId ∉ rows.map Row.requestId)
    (admits : Admits limiter rows request run routed) :
    (routed.admitted.filter (·.requestId = request.requestId) = [] ∧ routed.statements = [] ∧
      (routed.admitted = rows ∨ routed.admitted = limiter.evict rows request.now)) ∨
    ∃ size, routed.admitted.filter (·.requestId = request.requestId) = [reservedRow request size] ∧
      (∀ statement ∈ routed.statements, statement.reservation = reservationOf request size) ∧
      routed.admitted = limiter.evict rows request.now ++ [reservedRow request size] := by
  obtain ⟨evicted,kept⟩ := evict_others limiter fresh request.now
  cases admits with
  | raised => exact Or.inl ⟨kept,rfl,Or.inl rfl⟩
  | denied => exact Or.inl ⟨evicted,rfl,Or.inr rfl⟩
  | admitted size sized awaited room statements own result =>
    refine Or.inr ⟨size,?_,own,rfl⟩
    rw [List.filter_append,evicted]
    simp [reservedRow]

theorem Entry.Routed.own {entry : Entry} (routed : entry.Routed tables format config) :
    entry.Own := by
  obtain ⟨rows,fresh,initial,statements⟩ := routed
  rcases admits_own fresh (route_admits tables format config.limiter fresh entry.contacts
    entry.run) with ⟨none_,silent,-⟩ | ⟨size,row,about,-⟩
  · rw [none_] at initial
    rw [silent] at statements
    exact ⟨initial ▸ List.forall_mem_nil _,statements ▸ List.forall_mem_nil _⟩
  · rw [row] at initial
    refine ⟨initial ▸ ?_,statements ▸ fun statement member => by rw [about statement member]; rfl⟩
    simp [reservedRow]

/-- The table holds the rows of the log that are still in the window. -/
structure Inv (tables : Unicode.Tables) (format : Json.FloatFormat) (config : Config)
    (state : State) : Prop where
  routed : ∀ entry ∈ state.log, entry.Routed tables format config
  distinct : (state.log.map (·.request.requestId)).Nodup
  known : ∀ row ∈ state.rows, row.requestId ∈ state.log.map (·.request.requestId)
  window : ∀ now, state.clock ≤ now →
    config.limiter.evict state.rows now = config.limiter.evict (state.log.flatMap Entry.rows) now

theorem Inv.used {state : State} (inv : Inv tables format config state) {now : ℚ}
    (later : state.clock ≤ now) (tenant : String) : config.limiter.used state.rows tenant now =
      spent config.limiter state.log tenant now := by
  rw [Eviction.used_of_evict config.limiter (inv.window now later),used_spent (fun entry member =>
    (inv.routed entry member).own)]

theorem start_inv (clock : ℚ) : Inv tables format config (.start clock) :=
  ⟨List.forall_mem_nil _,List.nodup_nil,List.forall_mem_nil _,fun _ _ => rfl⟩

theorem arrive_inv {state : State} (inv : Inv tables format config state) {arrival : Arrival}
    (order : state.clock ≤ arrival.now)
    (fresh : arrival.requestId ∉ state.log.map (·.request.requestId)) :
    Inv tables format config
      ⟨(handleMessages tables format hexdigest config state.rows arrival).2.1,arrival.now,
      state.log ++
        (handleMessages tables format hexdigest config state.rows arrival).2.2.toList⟩ := by
  have still : Inv tables format config ⟨state.rows,arrival.now,state.log ++
    (none : Option Entry).toList⟩ := by
    rw [Option.toList_none,List.append_nil]
    exact ⟨inv.routed,inv.distinct,inv.known,fun now later => inv.window now (order.trans later)⟩
  rw [handleMessages]
  cases accept tables format hexdigest config arrival.http with
  | answered reply => exact still
  | accepted tenant body forwarded =>
    dsimp only
    cases bindText tenant with
    | none => exact still
    | some tenant =>
      dsimp only
      have new : (arrival.request tenant body).requestId ∉ state.rows.map Row.requestId := by
        intro present
        obtain ⟨row,member,same⟩ := List.mem_map.mp present
        have listed := inv.known row member
        rw [same] at listed
        exact fresh listed
      generalize admissionRun config.limiter state.rows (arrival.request tenant body)
        arrival.run = run
      have admits :=
        admits_own new (route_admits tables format config.limiter new arrival.contacts run)
      have routed : Entry.Routed tables format config ⟨arrival.request tenant body,
        arrival.contacts,run,
          (route tables format config.limiter state.rows (arrival.request tenant body)
            arrival.contacts
            run).admitted.filter (·.requestId = (arrival.request tenant body).requestId),
          (route tables format config.limiter state.rows (arrival.request tenant body)
            arrival.contacts
            run).statements,0⟩ := ⟨state.rows,new,rfl,rfl⟩
      generalize route tables format config.limiter state.rows (arrival.request tenant body)
        arrival.contacts
        run = ended at admits routed ⊢
      have evicted (now : ℚ) (later : arrival.now ≤ now) :
          config.limiter.evict (config.limiter.evict state.rows arrival.now) now =
            config.limiter.evict (state.log.flatMap Entry.rows) now := by
        rw [Eviction.evict_evict config.limiter _ _ _ later]
        exact inv.window now (order.trans later)
      have older : ∀ row ∈ config.limiter.evict state.rows arrival.now,
        row.requestId ∈ state.log.map (·.request.requestId) :=
        fun row member => inv.known row (List.mem_filter.mp member).1
      simp only [Option.toList_some]
      refine ⟨?_,?_,?_,?_⟩
      · exact List.forall_mem_append.mpr ⟨inv.routed,List.forall_mem_singleton.mpr routed⟩
      · rw [List.map_append,List.map_singleton,List.nodup_append_comm]
        exact List.nodup_cons.mpr ⟨fresh,inv.distinct⟩
      · intro row member
        rw [List.map_append,List.map_singleton,List.mem_append,List.mem_singleton]
        rcases admits with ⟨-,-,kept | kept⟩ | ⟨size,-,-,kept⟩
        · exact Or.inl (inv.known row (kept ▸ member))
        · exact Or.inl (older row (kept ▸ member))
        · rw [kept] at member
          rcases List.mem_append.mp member with before | own
          · exact Or.inl (older row before)
          · exact Or.inr (List.mem_singleton.mp own ▸ rfl)
      · intro now later
        rw [List.flatMap_append,List.flatMap_singleton,evict_append,Entry.rows,List.take_zero]
        dsimp only [applyAll,List.foldl_nil]
        rcases admits with ⟨none_,-,kept | kept⟩ | ⟨size,row,-,kept⟩
        · rw [none_,kept,inv.window now (order.trans later)]
          exact (List.append_nil _).symm
        · rw [none_,kept]
          exact (evicted now later).trans (List.append_nil _).symm
        · rw [row,kept,evict_append]
          exact congrArg (· ++ _) (evicted now later)

theorem set_split {log : List Entry} {index : Nat} {entry : Entry}
    (listed : log[index]? = some entry) (other : Entry) :
    ∃ front back, log = front ++ entry::back ∧ log.set index other = front ++ other::back := by
  obtain ⟨bound,rfl⟩ := List.getElem?_eq_some_iff.mp listed
  refine ⟨log.take index,log.drop (index + 1),
    by rw [List.cons_getElem_drop_succ,List.take_append_drop],?_⟩
  rw [List.set_eq_take_append_cons_drop,if_pos bound]

/-- A committed statement changes the rows of its own entry and of no other. -/
theorem commit_inv {state : State} (inv : Inv tables format config state) {index : Nat}
    {entry : Entry} {statement : Statement} (listed : state.log[index]? = some entry)
    (next : entry.statements[entry.committed]? = some statement) :
    Inv tables format config ⟨statement.apply state.rows,state.clock,
      state.log.set index {entry with committed := entry.committed + 1}⟩ := by
  obtain ⟨rows,clock,log⟩ := state
  obtain ⟨routed,distinct,known,window⟩ := inv
  obtain ⟨front,back,shape,replaced⟩ :=
    set_split listed {entry with committed := entry.committed + 1}
  dsimp only at routed distinct known window listed ⊢
  rw [replaced]
  subst shape
  have own := (routed entry (by simp)).own
  have about := own.statements statement (List.mem_of_getElem? next)
  have ids : (front ++ {entry with committed := entry.committed + 1}::back).map
    (·.request.requestId) =
      (front ++ entry::back).map (·.request.requestId) := by simp
  refine ⟨?_,by rw [ids]; exact distinct,?_,?_⟩
  · intro other member
    rcases List.mem_append.mp member with before | rest
    · exact routed other (List.mem_append_left _ before)
    · rcases List.mem_cons.mp rest with rfl | after
      · exact routed entry (by simp)
      · exact routed other (List.mem_append_right _ (List.mem_cons_of_mem _ after))
  · intro row present
    rw [ids]
    obtain ⟨before,member,same,-⟩ := apply_keeps present
    exact same ▸ known before member
  · intro now later
    have others (part : List Entry) (inside : ∀ other ∈ part, other ∈ front ++ entry::back ∧
        other.request.requestId ≠ entry.request.requestId) : statement.apply
          (part.flatMap Entry.rows) = part.flatMap Entry.rows := by
      apply apply_others
      intro row member
      obtain ⟨other,listed,present⟩ := List.mem_flatMap.mp member
      rw [((routed other (inside other listed).1).own.rows row present).1,about]
      exact (inside other listed).2
    have own_rows : statement.apply entry.rows =
      ({entry with committed := entry.committed + 1} : Entry).rows := by
      rw [Entry.rows,Entry.rows,List.take_add_one,next]
      dsimp only [Option.toList_some]
      rw [applyAll,applyAll,List.foldl_append]
      rfl
    rw [List.map_append,List.map_cons,List.nodup_append] at distinct
    obtain ⟨-,behind,apart⟩ := distinct
    rw [evict_apply,window now later,← evict_apply,List.flatMap_append,List.flatMap_cons,
      apply_append,apply_append,
      others front ?_,others back ?_,own_rows,List.flatMap_append,List.flatMap_cons]
    · intro other member
      refine ⟨List.mem_append_right _ (List.mem_cons_of_mem _ member),fun same => ?_⟩
      exact (List.nodup_cons.mp behind).1 (same ▸ List.mem_map_of_mem member)
    · intro other member
      exact ⟨List.mem_append_left _ member,
        apart _ (List.mem_map_of_mem member) _ List.mem_cons_self⟩

/-- What a request comes to whose awaits all return: nothing where every provider failed and none timed out, and
else the usage that was reported, or the estimate. -/
def bill (tables : Unicode.Tables) (format : Json.FloatFormat) (request : Routing.Request)
    (contacts : List Contact) (run : Run) : Int :=
  let size := (reservationSize request.body).getD 0
  match deciding (callFor request) contacts with
  | none => if (timedOut (tried (callFor request) contacts)).isEmpty then 0 else size
  | some _ => (reported tables format request contacts run).getD size

theorem dispatch_bill {request : Routing.Request} {size : Int} {decision : LimitDecision}
    {contacts : List Contact} {run : Run} (sized : reservationSize request.body = some size)
    (calm : Failover.Calm request contacts run) :
    ∃ statement, (conclude tables format (reservationOf request size) size run
        (dispatch tables request decision (reservationOf request size) size contacts)).1 =
        [statement] ∧
      (statement = .release (reservationOf request size) ∧
        bill tables format request contacts run = 0 ∨
        statement = .settle (reservationOf request size)
          (bill tables format request contacts run)) := by
  obtain ⟨statement,result,concluded,reckoned⟩ :=
    @Failover.calm_reckoned tables format request size decision contacts run calm
  have ending := @dispatch_ending tables request size decision contacts
  refine ⟨statement,by rw [concluded],?_⟩
  cases decisive : deciding (callFor request) contacts with
  | none =>
    have billed : bill tables format request contacts run =
        if (timedOut (tried (callFor request) contacts)).isEmpty then 0 else size := by
      simp only [bill,decisive,sized,Option.getD_some]
    rw [billed]
    cases reckoned with
    | exhausted =>
      split_ifs
      · exact Or.inl ⟨rfl,rfl⟩
      · exact Or.inr rfl
    | succeeded _ attempt _ _ decided => simp [decisive] at decided
    | refused _ attempt amount _ _ decided => simp [decisive] at decided
  | some contact =>
    have billed : bill tables format request contacts run =
      (reported tables format request contacts run).getD size := by
      simp only [bill,decisive,sized,Option.getD_some]
    rw [billed]
    cases reckoned with
    | exhausted _ undecided => simp [decisive] at undecided
    | succeeded => exact Or.inr rfl
    | refused _ attempt amount =>
      generalize dispatch tables request decision (reservationOf request size) size contacts =
        finish at concluded ending
      cases ending with
      | raised => simp [conclude] at concluded
      | opened response last opens usage =>
        obtain ⟨count,relay,-⟩ := calm.relayed
        simp only [conclude,relay,relayStatements,Fate.commits,Prod.mk.injEq] at concluded
        rw [usage format run count true .done relay]
        exact Or.inr (List.singleton_inj.mp concluded.1).symm
      | closing last _ _ _ _ settles =>
        simp only [conclude,calm.closing,Prod.mk.injEq] at concluded
        rw [← List.singleton_inj.mp concluded.1]
        rcases settles with ⟨released,-⟩ | settled
        · rw [List.singleton_inj.mp concluded.1] at released
          cases released
        · exact Or.inr (settled format run)

theorem charge_singleton {entry : Entry} {row : Row} (initial : entry.initial = [row]) :
    entry.charge =
      ((applyAll [row] (entry.statements.take entry.committed)).map Row.tokens).sum := by
  rw [Entry.charge,Entry.rows,initial]

/-- Where a request holds a row, the statements are what its providers' answers come to. -/
theorem Entry.Routed.held {entry : Entry} (routed : entry.Routed tables format config) :
    (entry.initial = [] ∧ entry.statements = []) ∨ ∃ size decision,
      reservationSize entry.request.body = some size ∧
      entry.initial = [reservedRow entry.request size] ∧ (entry.run.admission = .done →
        entry.statements =
        (conclude tables format (reservationOf entry.request size) size entry.run
          (dispatch tables entry.request decision (reservationOf entry.request size) size
            entry.contacts)).1) := by
  obtain ⟨rows,fresh,initial,statements⟩ := routed
  have admits := route_admits tables format config.limiter fresh entry.contacts entry.run
  have came (size : Int) (sized : reservationSize entry.request.body = some size)
      (room : config.limiter.used rows entry.request.tenant entry.request.now +
        size ≤ config.limiter.limit) :=
    @route_admitted tables format config.limiter rows _ entry.request size _
      entry.contacts entry.run
      (room_admitted fresh sized room)
  obtain ⟨evicted,kept⟩ := evict_others config.limiter fresh entry.request.now
  generalize route tables format config.limiter rows entry.request entry.contacts entry.run =
    routed at admits came initial statements
  cases admits with
  | raised => exact Or.inl ⟨initial.trans kept,statements⟩
  | denied => exact Or.inl ⟨initial.trans evicted,statements⟩
  | admitted size sized awaited room =>
    refine Or.inr ⟨size,_,sized,?_,fun done => statements.trans (came size sized room done).1⟩
    rw [initial,List.filter_append,evicted]
    simp [reservedRow]

theorem finished_charge {entry : Entry} (routed : entry.Routed tables format config)
    (finished : entry.committed = entry.statements.length)
    (calm : Failover.Calm entry.request entry.contacts entry.run) :
    entry.charge = if entry.initial = [] then 0
      else bill tables format entry.request entry.contacts entry.run := by
  rcases routed.held with ⟨none_,silent⟩ | ⟨size,decision,sized,initial,came⟩
  · rw [if_pos none_,Entry.charge,Entry.rows,none_,silent,List.take_nil]
    rfl
  · obtain ⟨statement,concluded,ended⟩ := @dispatch_bill tables format _ _ decision _ _ sized calm
    rw [charge_singleton initial,finished,List.take_length,came calm.admission,concluded,initial,
      if_neg (by simp)]
    rcases ended with ⟨rfl,free⟩ | rfl
    · rw [free]
      simp [applyAll,Statement.apply,release,reservedRow,reservationOf]
    · simp [applyAll,Statement.apply,settle,reservedRow,reservationOf]

theorem waiting_charge {entry : Entry} (routed : entry.Routed tables format config)
    (waiting : entry.committed = 0) :
    entry.charge = if entry.initial = [] then 0
      else (reservationSize entry.request.body).getD 0 := by
  rcases routed.held with ⟨none_,silent⟩ | ⟨size,decision,sized,initial,-⟩
  · rw [if_pos none_,Entry.charge,Entry.rows,none_,silent,List.take_nil]
    rfl
  · rw [charge_singleton initial,waiting,initial,if_neg (by simp),sized]
    simp [applyAll,reservedRow]

theorem step_inv {state next : State} {event : Event} (inv : Inv tables format config state)
    (taken : step tables format hexdigest config state event = some next) :
    Inv tables format config next := by
  cases event with
  | arrive arrival =>
    simp only [step] at taken
    split_ifs at taken with possible
    cases taken
    exact arrive_inv hexdigest inv possible.1 possible.2.1
  | commit index =>
    simp only [step] at taken
    cases listed : state.log[index]? with
    | none => simp [listed] at taken
    | some entry =>
      simp only [listed] at taken
      cases left : entry.statements[entry.committed]? with
      | none => simp [left] at taken
      | some statement =>
        simp only [left,Option.some.injEq] at taken
        rw [← taken]
        exact commit_inv inv listed left
  | usage request now =>
    simp only [step] at taken
    split_ifs at taken with order
    cases taken
    exact ⟨inv.routed,inv.distinct,inv.known,fun later after =>
      inv.window later (order.trans after)⟩

theorem run_inv {clock : ℚ} {events : List Event} {state : State}
    (taken : run (step tables format hexdigest config) (.start clock) events = some state) :
    Inv tables format config state :=
  run_invariant (fun _ _ _ inv first => step_inv hexdigest inv first) (start_inv clock) taken

end Steps

section Accounts
variable (tables : Unicode.Tables) (format : Json.FloatFormat) (hexdigest : Bytes → Str)
    (config : Config)

/-- However the requests in flight are interleaved, a tenant's usage is the sum over the tenant's requests of the
window, unless the sum leaves the range of the column: the estimate of each that was admitted and nothing was committed
for, and the bill of each whose awaits have all returned. -/
theorem usage_accounts (clock : ℚ) (events : List Event) {state : State}
    (taken : run (step tables format hexdigest config) (.start clock) events = some state) {now : ℚ}
    (later : state.clock ≤ now) (request : HttpRequest) {tenant : Tenant} {name : String}
    (known : authenticate tables hexdigest config request = .ok tenant)
    (bound : bindText tenant.id = some name) :
    handleUsage tables hexdigest config state.rows request now =
      (if Stored.Summed config.limiter state.rows name now then
        .usage (spent config.limiter state.log name now) config.limiter.limit
          (max 0 (config.limiter.limit - spent config.limiter state.log name now))
      else .raised) ∧
    ∀ entry ∈ state.log,
      (entry.committed = 0 → entry.charge = if entry.initial = [] then 0
        else (reservationSize entry.request.body).getD 0) ∧
      (entry.committed = entry.statements.length →
        Failover.Calm entry.request entry.contacts entry.run →
        entry.charge = if entry.initial = [] then 0
          else bill tables format entry.request entry.contacts entry.run) := by
  have inv := run_inv hexdigest taken
  refine ⟨?_,fun entry member => ?_⟩
  · simp only [handleUsage,known,bound,Stored.used_eq,inv.used later]
    split_ifs <;> rfl
  · have routed := inv.routed entry member
    exact ⟨waiting_charge routed,finished_charge routed⟩

/-- One tenant, and a request that a provider answers with its usage. -/
def oneTenant : Config := ⟨defaultLimiter,[(lit "demo-key-alpha",lit "tenant-alpha")],false⟩

def hello : HttpRequest :=
  ⟨[(lit "X-Api-Key",lit "demo-key-alpha")],none,[lit "\x7b\"messages\":[\"hi\"]\x7d"]⟩

def helloArrival : Arrival where
  http := hello
  requestId := "r1"
  now := 0
  contacts := [⟨⟨lit "primary"⟩,5,
    .answered 200 (.dict [(lit "usage",.dict [(lit "output_tokens",.int 30)])]),.raised⟩]
  run := ⟨.done,.done,.done,.unstarted⟩

def undigested (_ : Bytes) : Str := []

def twoTenants : Config :=
  ⟨defaultLimiter,[(lit "demo-key-alpha",lit "tenant-alpha"),
    (lit "demo-key-beta",lit "tenant-beta")],false⟩

/-- A request as in `helloArrival`, of either tenant. -/
def asking (key : String) (requestId : String) (now : ℚ) (body : String) : Arrival :=
  {helloArrival with
  http := ⟨[(lit "X-Api-Key",lit key)],none,[lit body]⟩
  requestId := requestId
  now := now
  run := ⟨.done,.done,.done,.started 0 true .done⟩}

/-- Three requests of two tenants. The last of them is still with its provider. -/
def busy : List Event :=
  [.arrive (asking "demo-key-alpha" "r1" 0 "\x7b\"messages\":[\"hi\"]\x7d"),
    .arrive (asking "demo-key-beta" "r2" 1 "\x7b\"messages\":[\"hi\"]\x7d"),
    .arrive (asking "demo-key-alpha" "r3" 2 "\x7b\"messages\":[\"hi\"]\x7d"),.commit 1,.commit 0]

theorem usage_accounts_busy : ∃ state,
    run (step Unicode.ascii .verbatim undigested twoTenants) (.start 0) busy = some state ∧
    handleUsage Unicode.ascii undigested twoTenants state.rows hello 3 = .usage 1055 50000 48945 ∧
    (∃ entry ∈ state.log, entry.charge = 30) ∧ ∃ entry ∈ state.log, entry.charge = 1025 := by
  have ran : (run (step Unicode.ascii .verbatim undigested twoTenants) (.start 0) busy).any
    (fun state =>
      state.clock ≤ 3 ∧ Stored.Summed defaultLimiter state.rows "tenant-alpha" 3 ∧
      spent defaultLimiter state.log "tenant-alpha" 3 = 1055 ∧
      (∃ entry ∈ state.log, entry.committed = entry.statements.length ∧
        Failover.Calm entry.request entry.contacts entry.run ∧ entry.initial ≠ [] ∧
        bill Unicode.ascii .verbatim entry.request entry.contacts entry.run = 30) ∧
      ∃ entry ∈ state.log, entry.committed = 0 ∧ entry.initial ≠ [] ∧
      reservationSize entry.request.body = some 1025) = true := by
    decide +kernel
  obtain ⟨state,taken,holds⟩ := (Option.any_eq_true _ _).mp ran
  obtain ⟨later,summed,sum,⟨closed,listed,finished,calm,held,billed⟩,waits,listed',waiting,
    held',sized⟩ :=
    of_decide_eq_true holds
  have known : authenticate Unicode.ascii undigested twoTenants hello =
    .ok ⟨lit "tenant-alpha"⟩ := by decide +kernel
  have bound : bindText (lit "tenant-alpha") = some "tenant-alpha" := by decide +kernel
  obtain ⟨answered,charged⟩ :=
    usage_accounts Unicode.ascii .verbatim undigested twoTenants 0 busy taken later
      hello known bound
  refine ⟨state,taken,?_,⟨closed,listed,?_⟩,waits,listed',?_⟩
  · rw [answered]
    exact (if_pos summed).trans
      (congrArg (fun sum => Reply.usage sum 50000 (max 0 (50000 - sum))) sum)
  · rw [(charged closed listed).2 finished calm,if_neg held,billed]
  · rw [(charged waits listed').1 waiting,if_neg held',sized,Option.getD_some]

/-- A request that gets to the limiter and whose transaction is committed is admitted exactly when its estimate has room
beside what the tenant is charged for the window, and else gets a 429 with that usage. A request that is answered
before the limiter changes nothing, and neither does one for which an amount leaves the range of the column: a 500. -/
theorem admission_exact (clock : ℚ) (events : List Event) {state : State}
    (taken : run (step tables format hexdigest config) (.start clock) events = some state)
    (arrival : Arrival) (later : state.clock ≤ arrival.now)
    (fresh : arrival.requestId ∉ state.log.map (·.request.requestId)) :
    (∀ reply, accept tables format hexdigest config arrival.http = .answered reply →
      handleMessages tables format hexdigest config state.rows arrival = (reply,state.rows,none)) ∧
    ∀ tenant body forwarded name size, accept tables format hexdigest config arrival.http =
      .accepted tenant body forwarded →
      bindText tenant = some name → reservationSize body = some size →
      arrival.run.admission = .done →
      (Stored.Overflows config.limiter state.rows (.checkAndReserve name arrival.requestId size
        arrival.now) →
        (handleMessages tables format hexdigest config state.rows arrival).1 = .raised ∧
        (handleMessages tables format hexdigest config state.rows arrival).2.1 = state.rows) ∧
      (¬ Stored.Overflows config.limiter state.rows (.checkAndReserve name arrival.requestId size
        arrival.now) →
        (spent config.limiter state.log name arrival.now + size ≤ config.limiter.limit →
          (handleMessages tables format hexdigest config state.rows arrival).2.1 =
            config.limiter.evict state.rows arrival.now ++
              [reservedRow (arrival.request name body) size]) ∧
        (config.limiter.limit < spent config.limiter state.log name arrival.now + size →
          ∃ wait, handleMessages tables format hexdigest config state.rows arrival =
            (.routed (rateLimitedResult config.limiter ⟨false,
              spent config.limiter state.log name arrival.now,
                config.limiter.limit,none,some wait⟩ size),
                config.limiter.evict state.rows arrival.now,
              some ⟨arrival.request name body,arrival.contacts,arrival.run,[],[],0⟩))) := by
  have inv := run_inv hexdigest taken
  refine ⟨fun reply answered => by rw [handleMessages,answered],?_⟩
  intro tenant body forwarded name size accepted bound sized awaited
  have new : (arrival.request name body).requestId ∉ state.rows.map Row.requestId := by
    intro present
    obtain ⟨row,member,same⟩ := List.mem_map.mp present
    have listed := inv.known row member
    rw [same] at listed
    exact fresh listed
  have sum := inv.used later name
  have adjusted :=
    @admissionRun_eq config.limiter _ (arrival.request name body) _ new sized arrival.run
  have admits := route_admits tables format config.limiter new arrival.contacts
  obtain ⟨evicted,-⟩ := evict_others config.limiter new arrival.now
  simp only [handleMessages,accepted,bound]
  rw [← sum]
  constructor
  · intro overflows
    rw [adjusted.trans (if_pos overflows)]
    have admits := admits {arrival.run with admission := .failed}
    generalize route tables format config.limiter state.rows (arrival.request name body)
      arrival.contacts
      {arrival.run with admission := .failed} = routed at admits ⊢
    cases admits with
    | raised => exact ⟨rfl,rfl⟩
    | denied _ _ going => exact absurd rfl going
    | admitted _ _ going => exact absurd rfl going
  · intro within
    rw [adjusted.trans (if_neg within)]
    have admits := admits arrival.run
    generalize route tables format config.limiter state.rows (arrival.request name body)
      arrival.contacts arrival.run = routed at admits ⊢
    cases admits with
    | raised why =>
      rcases why with none_ | failed
      · rw [Arrival.request,sized] at none_
        cases none_
      · rw [awaited] at failed
        cases failed
    | denied other own _ crowded =>
      obtain rfl := Option.some.inj (sized.symm.trans own)
      refine ⟨fun room => absurd crowded (not_lt.mpr room),fun _ =>
        ⟨config.limiter.retryAfter state.rows name arrival.now size,?_⟩⟩
      have past : ¬ arrival.run.admission = .abandoned := by
        rw [awaited]
        decide
      simp only [if_neg past,Option.elim_some]
      exact congrArg (fun initial => (_,_,some (Entry.mk _ _ _ initial _ _))) evicted
    | admitted other own _ room =>
      obtain rfl := Option.some.inj (sized.symm.trans own)
      exact ⟨fun _ => rfl,fun crowded => absurd room (not_le.mpr crowded)⟩

/-- After `busy`, a request that is too large beside the others, and one that has room. -/
theorem admission_exact_busy : ∃ state,
    run (step Unicode.ascii .verbatim undigested twoTenants) (.start 0) busy = some state ∧
    (∃ wait, (handleMessages Unicode.ascii .verbatim undigested twoTenants state.rows
      (asking "demo-key-alpha" "r4" 3
      "\x7b\"messages\":[\"hi\"],\"max_tokens\":49000\x7d")).1 =
        .routed (rateLimitedResult twoTenants.limiter ⟨false,1055,twoTenants.limiter.limit,none,
          some wait⟩ 49001)) ∧
    ((handleMessages Unicode.ascii .verbatim undigested twoTenants state.rows
      (asking "demo-key-alpha" "r4" 3
      "\x7b\"messages\":[\"hi\"]\x7d")).2.1.map Row.requestId) = ["r1","r2","r3","r4"] := by
  have ran : (run (step Unicode.ascii .verbatim undigested twoTenants) (.start 0) busy).any
    (fun state =>
      state.clock ≤ 3 ∧ "r4" ∉ state.log.map (·.request.requestId) ∧
      spent twoTenants.limiter state.log "tenant-alpha" 3 = 1055 ∧
      (twoTenants.limiter.evict state.rows 3).map Row.requestId = ["r1","r2","r3"] ∧
      ¬ Stored.Overflows twoTenants.limiter state.rows
        (.checkAndReserve "tenant-alpha" "r4" 49001 3) ∧
      ¬ Stored.Overflows twoTenants.limiter state.rows
        (.checkAndReserve "tenant-alpha" "r4" 1025 3)) = true := by
    decide +kernel
  obtain ⟨state,taken,holds⟩ := (Option.any_eq_true _ _).mp ran
  obtain ⟨later,fresh,sum,ids,large,small⟩ := of_decide_eq_true holds
  have accepts (body : String) (size : Int)
    (accepted : (match accept Unicode.ascii .verbatim undigested twoTenants
      (asking "demo-key-alpha" "r4" 3 body).http with
      | .accepted tenant body _ =>
        decide (bindText tenant = some "tenant-alpha" ∧ reservationSize body = some size)
      | .answered _ => false) = true) : ∃ tenant fields forwarded,
          accept Unicode.ascii .verbatim undigested twoTenants
        (asking "demo-key-alpha" "r4" 3 body).http = .accepted tenant fields forwarded ∧
        bindText tenant = some "tenant-alpha" ∧ reservationSize fields = some size := by
    generalize accept Unicode.ascii .verbatim undigested twoTenants
      (asking "demo-key-alpha" "r4" 3 body).http = outcome
      at accepted
    cases outcome with
    | answered reply => cases accepted
    | accepted tenant fields forwarded =>
      exact ⟨tenant,fields,forwarded,rfl,of_decide_eq_true accepted⟩
  have exactly (body : String) :=
    (admission_exact Unicode.ascii .verbatim undigested twoTenants 0 busy taken
    (asking "demo-key-alpha" "r4" 3 body) later fresh).2
  refine ⟨state,taken,?_,?_⟩
  · obtain ⟨tenant,fields,forwarded,accepted,bound,sized⟩ := accepts
      "\x7b\"messages\":[\"hi\"],\"max_tokens\":49000\x7d" 49001 (by decide +kernel)
    obtain ⟨wait,refused⟩ :=
      ((exactly _ tenant fields forwarded _ 49001 accepted bound sized rfl).2 large).2 (by
      rw [show (asking "demo-key-alpha" "r4" 3 _).now = 3 from rfl,sum]
      decide)
    rw [show (asking "demo-key-alpha" "r4" 3 _).now = 3 from rfl,sum] at refused
    exact ⟨wait,by rw [refused]⟩
  · obtain ⟨tenant,fields,forwarded,accepted,bound,sized⟩ :=
      accepts "\x7b\"messages\":[\"hi\"]\x7d" 1025 (by decide +kernel)
    have admitted :=
      ((exactly _ tenant fields forwarded _ 1025 accepted bound sized rfl).2 small).1 (by
      rw [show (asking "demo-key-alpha" "r4" 3 _).now = 3 from rfl,sum]
      decide)
    rw [admitted,List.map_append]
    exact congrArg (· ++ _) ids

end Accounts

end QuilrMcp.Router.App
