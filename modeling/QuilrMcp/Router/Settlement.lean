import QuilrMcp.Router.Routing

/-! What becomes of a request's row: over every list of providers, every outcome and every await
that is cancelled or raises. -/
namespace QuilrMcp.Router.Settlement
open Library Library.Text
open RateLimit Providers Tokens Routing

/-- The request's row is still reserved. -/
def Pending (rows : List Row) (requestId : String) : Prop :=
  ∃ row ∈ rows, row.requestId = requestId ∧ row.state = .reserved

def applyAll (rows : List Row) (statements : List Statement) : List Row :=
  statements.foldl Statement.apply rows

private theorem pending_apply {rows : List Row} {requestId : String} {statement : Statement}
    (pending : Pending (statement.apply rows) requestId) :
    Pending rows requestId ∧ statement.reservation.requestId ≠ requestId := by
  obtain ⟨row,present,own,state⟩ := pending
  cases statement with
  | settle reservation actualTokens =>
    simp only [Statement.apply,settle] at present
    obtain ⟨before,member,rfl⟩ := List.mem_map.mp present
    split_ifs at own state with same
    exact ⟨⟨before,member,own,state⟩,fun equal => same (own.trans equal.symm)⟩
  | release reservation =>
    obtain ⟨member,other⟩ := List.mem_filter.mp present
    refine ⟨⟨row,member,own,state⟩,fun equal => ?_⟩
    simp [own,← equal] at other
    exact other rfl

/-- A row stays reserved exactly where no statement about it was committed. -/
theorem pending_iff {later : List Row} {requestId : String} {statements : List Statement}
    (held : Pending later requestId)
    (own : ∀ statement ∈ statements, statement.reservation.requestId = requestId) :
    Pending (applyAll later statements) requestId ↔ statements = [] := by
  constructor
  · intro pending
    rcases List.eq_nil_or_concat statements with none | ⟨before,last,shape⟩
    · exact none
    · subst shape
      rw [applyAll,List.concat_eq_append,List.foldl_append] at pending
      exact absurd (own last (by simp)) (pending_apply pending).2
  · rintro rfl
    exact held

/-- The request's row is there and settled at the amount. -/
def Charged (rows : List Row) (requestId : String) (amount : Int) : Prop :=
  (∃ row ∈ rows, row.requestId = requestId) ∧
    ∀ row ∈ rows, row.requestId = requestId → row.state = .settled ∧ row.tokens = amount

private theorem apply_origin {rows : List Row} {statement : Statement} {row : Row}
    (present : row ∈ statement.apply rows) :
    ∃ before ∈ rows, before.requestId = row.requestId := by
  cases statement with
  | settle reservation actualTokens =>
    simp only [Statement.apply,settle] at present
    obtain ⟨before,member,rfl⟩ := List.mem_map.mp present
    refine ⟨before,member,?_⟩
    split_ifs <;> rfl
  | release reservation => exact ⟨row,(List.mem_filter.mp present).1,rfl⟩

/-- A released row does not come back, whatever else is committed. -/
theorem released_absent {later : List Row} {statements : List Statement} (reservation : Reservation)
    (member : .release reservation ∈ statements) :
    ∀ row ∈ applyAll later statements, row.requestId ≠ reservation.requestId := by
  have gone (rows : List Row) (rest : List Statement) (absent : ∀ row ∈ rows,
    row.requestId ≠ reservation.requestId) :
      ∀ row ∈ applyAll rows rest, row.requestId ≠ reservation.requestId := by
    induction rest generalizing rows with
    | nil => exact absent
    | cons statement rest ih =>
      refine ih (statement.apply rows) (fun row present => ?_)
      obtain ⟨before,known,same⟩ := apply_origin present
      exact same ▸ absent before known
  obtain ⟨before,after,rfl⟩ := List.append_of_mem member
  rw [applyAll,List.foldl_append,List.foldl_cons]
  refine gone _ after (fun row present => ?_)
  simpa using (List.mem_filter.mp present).2

theorem settled_charged {later : List Row} (reservation : Reservation) (amount : Int)
    (held : Pending later reservation.requestId) :
    Charged (applyAll later [.settle reservation amount]) reservation.requestId amount := by
  refine ⟨?_,?_⟩
  · obtain ⟨row,present,own,_⟩ := held
    exact ⟨_,List.mem_map_of_mem present,by simp [own]⟩
  · intro row present own
    obtain ⟨before,_,rfl⟩ := List.mem_map.mp present
    split_ifs at own ⊢ with same
    · exact ⟨rfl,rfl⟩
    · exact absurd own same

private theorem pending_uncharged {later : List Row} {requestId : String}
    (held : Pending later requestId) (amount : Int) :
    ¬ Charged later requestId amount := by
  rintro ⟨-,settled⟩
  obtain ⟨row,present,own,reserved⟩ := held
  rw [(settled row present own).1] at reserved
  contradiction

private theorem released_uncharged {later : List Row} {statements : List Statement}
    (reservation : Reservation) (amount : Int) (member : .release reservation ∈ statements) :
    ¬ Charged (applyAll later statements) reservation.requestId amount := by
  rintro ⟨⟨row,present,own⟩,-⟩
  exact released_absent reservation member row present own

/-- One attempt, as the request's loop makes it. -/
def callFor (request : Request) : Contact → Option Attempt :=
  if wantsStream request.body then callStream else callProvider

/-- An exception leaves the attempt that decides. -/
def Interrupted (request : Request) (contacts : List Contact) : Prop :=
  ∃ contact, deciding (callFor request) contacts = some contact ∧ callFor request contact = none

/-- The attempt that decides opens a stream. -/
def Opens (request : Request) (contacts : List Contact) : Prop :=
  wantsStream request.body = true ∧
  ∃ contact response statusCode, deciding callStream contacts = some contact ∧
    contact.streamed = .answered statusCode response ∧ classify statusCode = .success

/-- The relay is started, closes its response and has its settle committed. -/
def Relayed (run : Run) : Prop := ∃ count settling, run.relay = .started count true settling ∧
    settling.commits = true

section Runs
variable (tables : Unicode.Tables) (format : Json.FloatFormat) (limiter : RateLimiter)

/-- The usage that the deciding answer, or the part of its stream that was read, reports. -/
def reported (request : Request) (contacts : List Contact) (run : Run) : Option Int :=
  match deciding (callFor request) contacts with
  | none => none
  | some contact =>
    if wantsStream request.body then
      match contact.streamed, run.relay with
      | .answered statusCode response, .started count _ _ =>
        if classify statusCode = .success then (collected tables format response count).total
        else none
      | _, _ => none
    else (callProvider contact).bind (fun attempt => actualTokens attempt.body)

/-- A run that admits its request. -/
structure Admitted (rows : List Row) (request : Request) (size : Int) (admitted : List Row)
    (decision : LimitDecision) : Prop where
  sized : reservationSize request.body = some size
  inserted : limiter.checkAndReserve rows request.tenant request.requestId size request.now =
    .ok (admitted,decision)
  allowed : decision.allowed = true

def reservationOf (request : Request) (size : Int) : Reservation :=
  ⟨request.requestId,request.tenant,size⟩

variable {tables format limiter}
variable {rows admitted : List Row} {request : Request} {size : Int} {decision : LimitDecision}
variable {contacts : List Contact} {run : Run}

theorem route_admitted (entry : Admitted limiter rows request size admitted decision)
    (awaited : run.admission = .done) :
    (route tables format limiter rows request contacts run).statements =
      (conclude tables format (reservationOf request size) size run
        (dispatch tables request decision (reservationOf request size) size contacts)).1 ∧
    (route tables format limiter rows request contacts run).result =
      (conclude tables format (reservationOf request size) size run
        (dispatch tables request decision (reservationOf request size) size contacts)).2 := by
  obtain ⟨sized,inserted,allowed⟩ := entry
  have reserved := checkAndReserve_reservation limiter _ _ _ _ _ _ _ inserted allowed
  simp only [route,sized,awaited,inserted,allowed,reserved]
  exact ⟨rfl,rfl⟩

/-- Cut off while it waits for the admission, the request writes nothing more. -/
theorem route_abandoned (entry : Admitted limiter rows request size admitted decision)
    (awaited : run.admission = .abandoned) :
    (route tables format limiter rows request contacts run).statements = [] := by
  obtain ⟨sized,inserted,-⟩ := entry
  simp only [route,sized,awaited,inserted]
  rfl

/-- How the loop ends, by the contact that decides. -/
inductive Ending (tables : Unicode.Tables) (request : Request)
    (decision : LimitDecision) (size : Int) (contacts : List Contact) : Finish → Prop
  | raised (interrupted : Interrupted request contacts) :
      Ending tables request decision size contacts .raised
  | opened (response : Response) (result : RouteResult) (opens : Opens request contacts)
      (usage : ∀ format run count closes settling, run.relay = .started count closes settling →
        reported tables format request contacts run =
          (collected tables format response count).total) :
      Ending tables request decision size contacts (.opened response result)
  | closing (statement : Statement) (result : RouteResult) (unopened : ¬ Opens request contacts)
      (uninterrupted : ¬ Interrupted request contacts)
      (own : statement.reservation = reservationOf request size)
      (settles : statement = .release (reservationOf request size) ∧
          (∀ attempt ∈ tried (callFor request) contacts, attempt.outcome ≠ .timeout) ∨
        ∀ format run, statement = .settle (reservationOf request size)
          ((reported tables format request contacts run).getD size)) :
      Ending tables request decision size contacts (.closing statement result)

private theorem exhausted_ending (none_ : deciding (callFor request) contacts = none) :
    Ending tables request decision size contacts
      (exhausted decision (reservationOf request size) size
        (tried (callFor request) contacts)) := by
  have unreported (format : Json.FloatFormat) (run : Run) : reported tables format request contacts
    run = none := by
    rw [reported,none_]
  have unopened : ¬ Opens request contacts := by
    rintro ⟨streams,contact,_,_,decisive,-⟩
    rw [callFor,if_pos streams,decisive] at none_
    contradiction
  have uninterrupted : ¬ Interrupted request contacts := by
    rintro ⟨contact,decisive,-⟩
    rw [none_] at decisive
    contradiction
  unfold exhausted
  by_cases free : (timedOut (tried (callFor request) contacts)).isEmpty
  · rw [if_pos free]
    refine .closing _ _ unopened uninterrupted rfl (Or.inl ⟨rfl,fun attempt member late => ?_⟩)
    have counted : attempt ∈ timedOut (tried (callFor request) contacts) :=
      List.mem_filter.mpr ⟨member,by simp [late]⟩
    rw [List.isEmpty_iff.mp free] at counted
    contradiction
  · rw [if_neg free]
    exact .closing _ _ unopened uninterrupted rfl
      (Or.inr (fun format run => by rw [unreported,Option.getD_none]))

theorem dispatch_ending : Ending tables request decision size contacts
    (dispatch tables request decision (reservationOf request size) size contacts) := by
  unfold dispatch
  by_cases streams : wantsStream request.body = true
  · have call : callFor request = callStream := if_pos streams
    rw [if_pos streams,openStream_eq,List.nil_append]
    cases decisive : deciding callStream contacts with
    | none => exact call ▸ exhausted_ending (by rw [call,decisive])
    | some contact =>
      simp only [openedBy]
      cases called : openProviderStream contact with
      | none => exact .raised ⟨contact,by rw [call,decisive],by rw [call,callStream,called]; rfl⟩
      | some attempt =>
        rcases openProviderStream_cases called with ⟨statusCode,response,wire,good,
          held⟩ | ⟨free,failed⟩
        · simp only [held]
          refine .opened _ _ ⟨streams,contact,response,statusCode,decisive,wire,good⟩ ?_
          intro format run count closes settling relay
          simp only [reported,call,decisive,streams,if_true,wire,relay,good]
        · simp only [free]
          refine .closing _ _ ?_ ?_ rfl (Or.inr fun format run => ?_)
          · rintro ⟨_,other,response,statusCode,found,wire,good⟩
            rw [decisive] at found
            cases found
            exact failed statusCode response wire good
          · rintro ⟨other,found,none_⟩
            rw [call,decisive] at found
            cases found
            rw [call,callStream,called] at none_
            contradiction
          · have none_ : reported tables format request contacts run = none := by
              simp only [reported,call,decisive,streams,if_true]
              split
              · rename_i statusCode response count closes settling wire relay
                rw [if_neg (failed statusCode response wire)]
              · rfl
            rw [none_,Option.getD_none]
  · have call : callFor request = callProvider := if_neg streams
    have unopened : ¬ Opens request contacts := fun opens => streams opens.1
    rw [if_neg streams,serve_eq,List.nil_append]
    cases decisive : deciding callProvider contacts with
    | none => exact call ▸ exhausted_ending (by rw [call,decisive])
    | some contact =>
      simp only [served]
      cases called : callProvider contact with
      | none => exact .raised ⟨contact,by rw [call,decisive],by rw [call,called]⟩
      | some attempt =>
        refine .closing _ _ unopened ?_ rfl (Or.inr fun format run => ?_)
        · rintro ⟨other,found,none_⟩
          rw [call,decisive] at found
          cases found
          rw [call,called] at none_
          contradiction
        · simp only [settleStatement,reported,call,decisive,streams,called,Option.bind_some,
            Bool.false_eq_true,if_false]

private theorem cleanup_eq (reservation : Reservation) (run : Run) :
    ∀ statement ∈ cleanup reservation run, statement = .release reservation := by
  intro statement member
  unfold cleanup at member
  split_ifs at member
  · exact List.mem_singleton.mp member
  · contradiction

private theorem cleanup_nil_iff (reservation : Reservation) (run : Run) :
    cleanup reservation run = [] ↔ run.cleanup.commits = false := by
  simp [cleanup]

private theorem relayStatements_nil_iff (reservation : Reservation) (reserved : Int)
    (response : Response) :
    relayStatements tables format reservation reserved response run.relay = [] ↔ ¬ Relayed run := by
  unfold Relayed
  cases run.relay with
  | unstarted => simp [relayStatements]
  | started count closes settling => cases closes <;> simp [relayStatements]

private theorem conclude_own {finish : Finish}
    (ending : Ending tables request decision size contacts finish) :
    ∀ statement ∈ (conclude tables format (reservationOf request size) size run finish).1,
      statement.reservation = reservationOf request size := by
  intro statement member
  cases ending with
  | raised => exact cleanup_eq _ _ _ member ▸ rfl
  | opened response result =>
    simp only [conclude] at member
    cases relay : run.relay with
    | unstarted => simp [relay,relayStatements] at member
    | started count closes settling =>
      simp only [relay,relayStatements] at member
      split_ifs at member
      · exact List.mem_singleton.mp member ▸ rfl
      · contradiction
  | closing last result _ _ own =>
    simp only [conclude] at member
    split at member
    · exact List.mem_singleton.mp member ▸ own
    · exact cleanup_eq _ _ _ member ▸ rfl
    · rcases List.mem_cons.mp member with rfl | swept
      · exact own
      · exact cleanup_eq _ _ _ swept ▸ rfl

/-- Every statement of a run is about its own row. -/
theorem statements_own (entry : Admitted limiter rows request size admitted decision)
    (committed : run.admission.commits = true) :
    ∀ statement ∈ (route tables format limiter rows request contacts run).statements,
      statement.reservation = reservationOf request size := by
  cases awaited : run.admission with
  | failed => simp [awaited,Fate.commits] at committed
  | abandoned =>
    rw [route_abandoned entry awaited]
    exact nofun
  | done =>
    rw [(route_admitted entry awaited).1]
    exact conclude_own dispatch_ending

/-- What has to come about for the row to be settled or deleted: the admission returns, and then either
a stream is opened and its relay runs to its settle, or none is and the closing statement or the
release of the handler is committed. -/
def Closes (request : Request) (contacts : List Contact) (run : Run) : Prop :=
  run.admission = .done ∧
    ((Opens request contacts ∧ Relayed run) ∨
      (¬ Opens request contacts ∧
        (run.cleanup.commits = true ∨ (¬ Interrupted request contacts ∧
          run.closing.commits = true))))

private theorem interrupted_unopened (interrupted : Interrupted request contacts) :
    ¬ Opens request contacts := by
  rintro ⟨streams,contact,response,statusCode,decisive,wire,good⟩
  obtain ⟨other,found,none_⟩ := interrupted
  rw [callFor,if_pos streams,decisive] at found
  cases found
  rw [callFor,if_pos streams] at none_
  simp [callStream,openProviderStream,wire,good] at none_

private theorem conclude_nil_iff {finish : Finish}
    (ending : Ending tables request decision size contacts finish) :
    (conclude tables format (reservationOf request size) size run finish).1 = [] ↔
      ¬ ((Opens request contacts ∧ Relayed run) ∨ (¬ Opens request contacts ∧
        (run.cleanup.commits = true ∨ (¬ Interrupted request contacts ∧
          run.closing.commits = true)))) := by
  cases ending with
  | raised interrupted =>
    have unopened := interrupted_unopened interrupted
    simp [conclude,cleanup_nil_iff,unopened,interrupted]
  | opened response result opens => simp [conclude,relayStatements_nil_iff,opens]
  | closing last result unopened uninterrupted =>
    cases closing : run.closing <;> simp [conclude,closing,cleanup_nil_iff,unopened,
      uninterrupted,Fate.commits]

private theorem statements_nil_iff (entry : Admitted limiter rows request size admitted decision)
    (committed : run.admission.commits = true) :
    (route tables format limiter rows request contacts run).statements = [] ↔
    ¬ Closes request contacts run := by
  cases awaited : run.admission with
  | failed => simp [awaited,Fate.commits] at committed
  | abandoned =>
    rw [route_abandoned entry awaited]
    refine iff_of_true rfl (fun closes => ?_)
    have returned := closes.1
    rw [awaited] at returned
    contradiction
  | done =>
    rw [(route_admitted entry awaited).1,conclude_nil_iff dispatch_ending]
    simp [Closes,awaited]

end Runs

def firstRequest (fields : List (Str × Json.Value)) : Request := ⟨"acme","r1",0,fields⟩

def firstRow : Row := ⟨"acme","r1",1025,0,.reserved⟩

def firstDecision : LimitDecision := ⟨true,1025,50000,some ⟨"r1","acme",1025⟩,none⟩

theorem firstRequest_admitted {fields : List (Str × Json.Value)}
    (sized : reservationSize fields = some 1025) :
    Admitted defaultLimiter [] (firstRequest fields) 1025 [firstRow] firstDecision :=
  ⟨sized,rfl,rfl⟩

theorem firstRow_pending : Pending [firstRow] "r1" := ⟨firstRow,by simp,rfl,rfl⟩

section Results
variable {tables : Unicode.Tables} {format : Json.FloatFormat} {limiter : RateLimiter}
variable {rows admitted : List Row} {request : Request} {size : Int} {decision : LimitDecision}
variable {contacts : List Contact} {run : Run}

/-- Once a run whose admission inserted a row is over and its relay closed, the row is settled or
deleted exactly when `Closes` holds, whatever order its statements are committed in. -/
theorem row_closed_iff (entry : Admitted limiter rows request size admitted decision)
    (committed : run.admission.commits = true) (later : List Row)
    (held : Pending later request.requestId) (order : List Statement)
    (arrived : order.Perm (route tables format limiter rows request contacts run).statements) :
    ¬ Pending (applyAll later order) request.requestId ↔ Closes request contacts run := by
  have own : ∀ statement ∈ order, statement.reservation.requestId = request.requestId :=
    fun statement member =>
    congrArg Reservation.requestId (statements_own entry committed statement
      (arrived.subset member))
  have empty : order = [] ↔
    (route tables format limiter rows request contacts run).statements = [] := by
    constructor
    · rintro rfl
      exact List.nil_perm.mp arrived
    · intro none
      rw [none] at arrived
      exact List.perm_nil.mp arrived
  rw [pending_iff held own,empty,statements_nil_iff entry committed,not_not]

theorem row_closed_iff_unread : ¬ Pending (applyAll [firstRow] []) "r1" ↔
      Closes (firstRequest [(lit "stream",.bool true)]) [⟨⟨lit "primary"⟩,12,.raised,
        .answered 200 ⟨none,[[123,125]]⟩⟩]
        ⟨.done,.done,.done,.unstarted⟩ := by
  apply @row_closed_iff Unicode.ascii .verbatim _ _ _ _ _ _ _ _
    (firstRequest_admitted (by decide +kernel)) rfl [firstRow] firstRow_pending
  decide +kernel

/-- The client goes away between the headers and the first chunk. -/
theorem unread_stream_stays_reserved :
    ¬ ∀ (tables : Unicode.Tables) (format : Json.FloatFormat) (limiter : RateLimiter) (rows admitted : List Row)
      (request : Request) (size : Int) (decision : LimitDecision)
      (contacts : List Contact) (run : Run),
      Admitted limiter rows request size admitted decision → run.admission.commits = true →
      ∀ later, Pending later request.requestId →
      ∀ order : List Statement,
        order.Perm (route tables format limiter rows request contacts run).statements →
        ¬ Pending (applyAll later order) request.requestId := by
  intro closed
  apply closed Unicode.ascii .verbatim defaultLimiter [] [firstRow]
    (firstRequest [(lit "stream",.bool true)]) 1025
    firstDecision [⟨⟨lit "primary"⟩,12,.raised,.answered 200 ⟨none,[[123,125]]⟩⟩] ⟨.done,.done,
      .done,.unstarted⟩
    (firstRequest_admitted (by decide +kernel)) rfl [firstRow] firstRow_pending []
  · decide +kernel
  · exact firstRow_pending

/-- What has to come about for a request that a provider timed out on to be charged. -/
def Bills (request : Request) (contacts : List Contact) (run : Run) : Prop :=
  (Opens request contacts ∧ Relayed run) ∨
    (¬ Opens request contacts ∧ ¬ Interrupted request contacts ∧
      (run.closing = .done ∨ (run.closing = .abandoned ∧ run.cleanup.commits = false)))

private theorem cleanup_uncharged {later : List Row} (reservation : Reservation)
    (held : Pending later reservation.requestId) {order : List Statement}
    (arrived : order.Perm (cleanup reservation run)) (amount : Int) :
    ¬ Charged (applyAll later order) reservation.requestId amount := by
  by_cases swept : run.cleanup.commits = true
  · rw [cleanup,if_pos swept,List.perm_singleton] at arrived
    subst order
    exact released_uncharged reservation amount List.mem_cons_self
  · rw [cleanup,if_neg swept,List.perm_nil] at arrived
    subst order
    exact pending_uncharged held amount

private theorem conclude_charged {finish : Finish}
    (ending : Ending tables request decision size contacts finish)
    (late : ∃ attempt ∈ tried (callFor request) contacts, attempt.outcome = .timeout)
    {later : List Row} (held : Pending later request.requestId) {order : List Statement}
    (arrived : order.Perm (conclude tables format (reservationOf request size) size run finish).1) :
    Charged (applyAll later order) request.requestId
      ((reported tables format request contacts run).getD size) ↔
      Bills request contacts run := by
  unfold Bills
  cases ending with
  | raised interrupted =>
    have unopened := interrupted_unopened interrupted
    refine iff_of_false ?_ (by simp [unopened,interrupted])
    exact cleanup_uncharged (reservationOf request size) held arrived _
  | opened response result opens usage =>
    by_cases relayed : Relayed run
    · obtain ⟨count,settling,relay,commits⟩ := relayed
      refine iff_of_true ?_ (Or.inl ⟨opens,count,settling,relay,commits⟩)
      simp only [conclude,relay,relayStatements,commits,Bool.and_self,if_true,
        List.perm_singleton] at arrived
      subst order
      rw [usage format run count true settling relay]
      exact settled_charged (reservationOf request size) _ held
    · refine iff_of_false ?_ (by simp [opens,relayed])
      simp only [conclude,(relayStatements_nil_iff _ _ _).mpr relayed,List.perm_nil] at arrived
      subst order
      exact pending_uncharged held _
  | closing last result unopened uninterrupted own settles =>
    have charges : last = .settle (reservationOf request size)
      ((reported tables format request contacts run).getD size) := by
      rcases settles with ⟨-,never⟩ | settled
      · obtain ⟨attempt,member,timedOut⟩ := late
        exact absurd timedOut (never attempt member)
      · exact settled format run
    have settled := settled_charged (reservationOf request size)
      ((reported tables format request contacts run).getD size) held
    cases closing : run.closing with
    | done =>
      refine iff_of_true ?_ (by simp [unopened,uninterrupted])
      simp only [conclude,closing,List.perm_singleton] at arrived
      subst order
      exact charges ▸ settled
    | failed =>
      refine iff_of_false ?_ (by simp [unopened])
      simp only [conclude,closing] at arrived
      exact cleanup_uncharged (reservationOf request size) held arrived _
    | abandoned =>
      by_cases swept : run.cleanup.commits = true
      · refine iff_of_false ?_ (by simp [unopened,swept])
        simp only [conclude,closing,cleanup,if_pos swept] at arrived
        have released : .release (reservationOf request size) ∈ order :=
          arrived.mem_iff.mpr (by simp)
        exact released_uncharged (reservationOf request size) _ released
      · refine iff_of_true ?_ (by simp [unopened,uninterrupted,swept])
        simp only [conclude,closing,cleanup,if_neg swept,List.perm_singleton] at arrived
        subst order
        exact charges ▸ settled

/-- After a timeout the row ends settled at the reported usage or the estimate exactly when `Bills`
holds, whatever order the statements of the run are committed in. -/
theorem timeout_charged_iff (entry : Admitted limiter rows request size admitted decision)
    (awaited : run.admission = .done)
    (late : ∃ attempt ∈ tried (callFor request) contacts, attempt.outcome = .timeout)
    (later : List Row) (held : Pending later request.requestId) (order : List Statement)
    (arrived : order.Perm (route tables format limiter rows request contacts run).statements) :
    Charged (applyAll later order) request.requestId
      ((reported tables format request contacts run).getD size) ↔
      Bills request contacts run := by
  rw [(route_admitted entry awaited).1] at arrived
  exact conclude_charged dispatch_ending late held arrived

def lateContact : Contact := ⟨⟨lit "primary"⟩,30000,.timedOut,.timedOut⟩

def refusedContact : Contact := ⟨⟨lit "secondary"⟩,5,.answered 400 .null,.raised⟩

theorem timeout_charged_iff_estimate :
    Charged (applyAll [firstRow] [.settle ⟨"r1","acme",1025⟩ 1025]) "r1" 1025 ↔
      Bills (firstRequest []) [lateContact,refusedContact] ⟨.done,.done,.done,.unstarted⟩ := by
  have estimate : (reported Unicode.ascii .verbatim (firstRequest []) [lateContact,refusedContact]
      ⟨.done,.done,.done,.unstarted⟩).getD 1025 = 1025 := by decide +kernel
  have charged := @timeout_charged_iff Unicode.ascii .verbatim _ _ _ (firstRequest []) _ _
    [lateContact,refusedContact]
    ⟨.done,.done,.done,.unstarted⟩ (firstRequest_admitted (by decide +kernel)) rfl ⟨_,
      List.mem_cons_self,rfl⟩
    [firstRow] firstRow_pending [.settle ⟨"r1","acme",1025⟩ 1025] (by decide +kernel)
  rwa [estimate] at charged

/-- The first provider times out and the second one is cut off by an exception. -/
theorem timeout_then_exception_released :
    ¬ ∀ (tables : Unicode.Tables) (format : Json.FloatFormat) (limiter : RateLimiter) (rows admitted : List Row)
      (request : Request) (size : Int) (decision : LimitDecision)
      (contacts : List Contact) (run : Run),
      Admitted limiter rows request size admitted decision → run.admission = .done →
      (∃ attempt ∈ tried (callFor request) contacts, attempt.outcome = .timeout) →
      ∀ later, Pending later request.requestId →
      ∀ order : List Statement,
        order.Perm (route tables format limiter rows request contacts run).statements →
        Charged (applyAll later order) request.requestId
          ((reported tables format request contacts run).getD size) := by
  intro charges
  obtain ⟨⟨row,present,-⟩,-⟩ := charges Unicode.ascii .verbatim defaultLimiter [] [firstRow]
    (firstRequest []) 1025
    firstDecision [lateContact,⟨⟨lit "secondary"⟩,5,.raised,.raised⟩] ⟨.done,.done,.done,.unstarted⟩
    (firstRequest_admitted (by decide +kernel)) rfl ⟨_,List.mem_cons_self,rfl⟩
    [firstRow] firstRow_pending
    [.release ⟨"r1","acme",1025⟩] (by decide +kernel)
  simp [applyAll,Statement.apply,release,firstRow] at present

end Results

end QuilrMcp.Router.Settlement
