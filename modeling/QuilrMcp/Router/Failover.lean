import QuilrMcp.Router.Settlement
import Mathlib.Data.List.TakeWhile

/-! Failover accounting: which providers a request contacts, and what it is charged for them. -/
namespace QuilrMcp.Router.Failover
open Library Library.Text
open RateLimit Providers Tokens Routing Settlement

/-- The attempt ends the loop. -/
def Ends (attempt : Attempt) : Prop := attempt.outcome = .success ∨ attempt.outcome = .clientError

/-- The attempts are those of the shortest run of contacts from the first on that ends in a success
or a client error, or of all of them. -/
def Contacted (call : Contact → Option Attempt) (contacts : List Contact)
    (attempts : List Attempt) : Prop :=
  ∃ seen rest, contacts = seen ++ rest ∧ seen.map call = attempts.map some ∧
    (∀ attempt ∈ attempts.dropLast, ¬ Ends attempt) ∧
    (rest = [] ∨ ∃ last, attempts.getLast? = some last ∧ Ends last)

/-- All attempts of a loop. -/
def attemptsOf (call : Contact → Option Attempt) (contacts : List Contact) : List Attempt :=
  tried call contacts ++ ((deciding call contacts).bind call).toList

private theorem undecided_onward {call : Contact → Option Attempt} {contact : Contact}
    {attempt : Attempt} (onward : decides call contact = false)
    (called : call contact = some attempt) : ¬ Ends attempt := by
  rw [decides,called] at onward
  have goes := (shouldFailover_iff attempt.outcome).mp (by simpa using onward)
  rintro (good | client)
  · exact goes.1 good
  · exact goes.2 client

theorem attemptsOf_contacted (call : Contact → Option Attempt) (contacts : List Contact)
    (unraised : ∀ contact ∈ contacts, call contact ≠ none) :
    Contacted call contacts (attemptsOf call contacts) := by
  induction contacts with
  | nil => exact ⟨[],[],rfl,rfl,by simp [attemptsOf,tried,deciding],Or.inl rfl⟩
  | cons contact contacts ih =>
    obtain ⟨attempt,called⟩ := Option.ne_none_iff_exists'.mp (unraised contact List.mem_cons_self)
    cases decisive : decides call contact with
    | true =>
      have first : attemptsOf call (contact::contacts) = [attempt] := by
        simp [attemptsOf,tried,deciding,decisive,called]
      rw [first]
      exact ⟨[contact],contacts,rfl,
        by simp [called],by simp,Or.inr ⟨attempt,rfl,decided_cases decisive called⟩⟩
    | false =>
      have more : attemptsOf call (contact::contacts) = attempt::attemptsOf call contacts := by
        simp [attemptsOf,tried,deciding,decisive,called]
      obtain ⟨seen,rest,split,calls,onward,ended⟩ :=
        ih (fun other member => unraised other (List.mem_cons_of_mem _ member))
      refine ⟨contact::seen,rest,by rw [split,List.cons_append],by simp [more,called,calls],?_,?_⟩
      · rw [more]
        cases shape : attemptsOf call contacts with
        | nil => simp
        | cons next later =>
          rw [shape] at onward
          intro other member
          rcases List.mem_cons.mp member with rfl | member
          · exact undecided_onward decisive called
          · exact onward other member
      · rcases ended with none | ⟨last,final,ends⟩
        · exact Or.inl none
        · refine Or.inr ⟨last,?_,ends⟩
          rw [more,List.getLast?_cons,final]
          rfl

theorem tried_onward (call : Contact → Option Attempt) (contacts : List Contact) :
    ∀ attempt ∈ tried call contacts, ¬ Ends attempt := by
  intro attempt member
  obtain ⟨contact,kept,called⟩ := List.mem_filterMap.mp member
  apply undecided_onward _ called
  simpa using (List.mem_takeWhile_imp kept)

section Runs
variable {tables : Unicode.Tables} {format : Json.FloatFormat} {limiter : RateLimiter}
variable {rows admitted : List Row} {request : Request} {size : Int} {decision : LimitDecision}
variable {contacts : List Contact} {run : Run}

/-- Every await returns, no attempt raises, and a relay is read to its end. -/
structure Calm (request : Request) (contacts : List Contact) (run : Run) : Prop where
  admission : run.admission = .done
  closing : run.closing = .done
  relayed : ∃ count, run.relay = .started count true .done ∧
    ∀ contact ∈ contacts, ∀ statusCode response, contact.streamed = .answered statusCode response →
      response.chunks.length ≤ count
  unraised : ∀ contact ∈ contacts, callFor request contact ≠ none

def relaysWhole (contacts : List Contact) : Relay → Bool
  | .started count true .done => contacts.all (fun contact => match contact.streamed with
    | .answered _ response => decide (response.chunks.length ≤ count)
    | _ => true)
  | _ => false

theorem relaysWhole_iff (relay : Relay) :
    relaysWhole contacts relay = true ↔ ∃ count, relay = .started count true .done ∧
    ∀ contact ∈ contacts, ∀ statusCode response, contact.streamed = .answered statusCode response →
      response.chunks.length ≤ count := by
  constructor
  · intro whole
    unfold relaysWhole at whole
    split at whole
    · rename_i count
      refine ⟨count,rfl,fun contact member statusCode response streamed => ?_⟩
      have each := List.all_eq_true.mp whole contact member
      rw [streamed] at each
      exact of_decide_eq_true each
    · contradiction
  · rintro ⟨count,rfl,whole⟩
    apply List.all_eq_true.mpr
    intro contact member
    split
    · rename_i statusCode response streamed
      exact decide_eq_true (whole contact member statusCode response streamed)
    · rfl

instance : Decidable (Calm request contacts run) :=
  decidable_of_iff (run.admission = .done ∧ run.closing = .done ∧
    relaysWhole contacts run.relay = true ∧
    ∀ contact ∈ contacts, (callFor request contact).isSome)
    ⟨fun ⟨admission,closing,relayed,unraised⟩ =>
      ⟨admission,closing,(relaysWhole_iff run.relay).mp relayed,
      fun contact member => Option.isSome_iff_ne_none.mp (unraised contact member)⟩,
    fun calm => ⟨calm.admission,calm.closing,(relaysWhole_iff run.relay).mpr calm.relayed,
      fun contact member => Option.isSome_iff_ne_none.mpr (calm.unraised contact member)⟩⟩

/-- The ways a calm run ends. -/
inductive Reckoned (tables : Unicode.Tables) (format : Json.FloatFormat)
    (request : Request) (size : Int) (contacts : List Contact) (run : Run) :
    Statement → RouteResult → Prop
  | exhausted (result : RouteResult) (undecided : deciding (callFor request) contacts = none)
      (attempts : result.attempts = tried (callFor request) contacts)
      (status : result.statusCode = if (timedOut (tried (callFor request) contacts)).length =
        (tried (callFor request) contacts).length then 504 else 502) :
      Reckoned tables format request size contacts run
        (if (timedOut (tried (callFor request) contacts)).isEmpty then .release
          (reservationOf request size)
          else .settle (reservationOf request size) size) result
  | succeeded (result : RouteResult) (attempt : Attempt) (good : attempt.outcome = .success)
      (attempts : result.attempts = tried (callFor request) contacts ++ [attempt])
      (decided : (deciding (callFor request) contacts).bind (callFor request) = some attempt)
      (status : result.statusCode = 200) :
      Reckoned tables format request size contacts run
        (.settle (reservationOf request size)
          ((reported tables format request contacts run).getD size)) result
  | refused (result : RouteResult) (attempt : Attempt) (amount : Int)
      (client : attempt.outcome = .clientError)
      (attempts : result.attempts = tried (callFor request) contacts ++ [attempt])
      (decided : (deciding (callFor request) contacts).bind (callFor request) = some attempt)
      (status : 400 ≤ result.statusCode ∧ result.statusCode < 500) :
      Reckoned tables format request size contacts run
        (.settle (reservationOf request size) amount) result

private theorem callProvider_status {contact : Contact} {attempt : Attempt}
    (called : callProvider contact = some attempt) (client : attempt.outcome = .clientError) :
    400 ≤ attempt.statusCode.getD 400 ∧ attempt.statusCode.getD 400 < 500 := by
  obtain ⟨statusCode,known,least,most⟩ := callProvider_clientError called client
  rw [known]
  exact ⟨least,most⟩

private theorem openProviderStream_status {contact : Contact} {attempt : StreamAttempt}
    (opened : openProviderStream contact = some attempt) (client : attempt.outcome = .clientError) :
    400 ≤ attempt.statusCode.getD 400 ∧ attempt.statusCode.getD 400 < 500 := by
  obtain ⟨statusCode,known,least,most⟩ := openProviderStream_clientError opened client
  rw [known]
  exact ⟨least,most⟩

private theorem exhausted_reckoned (calm : Calm request contacts run)
    (undecided : deciding (callFor request) contacts = none) :
    ∃ statement result, conclude tables format (reservationOf request size) size run
        (exhausted decision (reservationOf request size) size (tried (callFor request) contacts)) =
          ([statement],some result) ∧
      Reckoned tables format request size contacts run statement result := by
  simp only [exhausted,conclude,calm.closing]
  exact ⟨_,_,rfl,.exhausted _ undecided rfl rfl⟩

theorem calm_reckoned (calm : Calm request contacts run) :
    ∃ statement result, conclude tables format (reservationOf request size) size run
        (dispatch tables request decision (reservationOf request size) size contacts) =
        ([statement],some result) ∧
      Reckoned tables format request size contacts run statement result := by
  unfold dispatch
  by_cases streams : wantsStream request.body = true
  · have call : callFor request = callStream := if_pos streams
    rw [if_pos streams,openStream_eq,List.nil_append]
    cases decisive : deciding callStream contacts with
    | none => exact call ▸ exhausted_reckoned calm (by rw [call,decisive])
    | some contact =>
      have member : contact ∈ contacts := List.mem_of_find?_eq_some decisive
      have unraised := calm.unraised contact member
      obtain ⟨count,relay,whole⟩ := calm.relayed
      obtain ⟨opened,found⟩ : ∃ opened, openProviderStream contact = some opened := by
        rw [call,callStream,ne_eq,Option.map_eq_none_iff] at unraised
        exact Option.ne_none_iff_exists'.mp unraised
      have known : callStream contact = some opened.attempt := by
        rw [callStream,found,Option.map_some]
      have decided : (deciding (callFor request) contacts).bind (callFor request) =
        some opened.attempt := by
        rw [call,decisive,Option.bind_some,known]
      have holds := openProviderStream_response found
      simp only [openedBy,found]
      rcases decided_cases (List.find?_some decisive) known with good | client
      · have good : opened.outcome = .success := good
        obtain ⟨statusCode,response,wire,accepted,held⟩ : ∃ statusCode response,
            contact.streamed = .answered statusCode response ∧ classify statusCode = .success ∧
              opened.response = some response := by
          rcases openProviderStream_cases found with accepted | ⟨free,-⟩
          · exact accepted
          · rw [← holds,free] at good
            contradiction
        have billed : (collected tables format response count).total =
          reported tables format request contacts run := by
          simp only [reported,call,decisive,streams,if_true,wire,relay,accepted]
        simp only [held,conclude,relay,relayStatements,Fate.commits,billed]
        exact ⟨_,_,rfl,.succeeded _ opened.attempt good (by rw [call]; rfl) decided rfl⟩
      · have client : opened.outcome = .clientError := client
        have free : opened.response = none := by
          rw [← Option.not_isSome_iff_eq_none,holds,client]
          decide
        simp only [free,conclude,calm.closing]
        refine ⟨_,_,rfl,.refused _ opened.attempt _ client (by rw [call]; rfl) decided ?_⟩
        exact openProviderStream_status found client
  · have call : callFor request = callProvider := if_neg streams
    rw [if_neg streams,serve_eq,List.nil_append]
    cases decisive : deciding callProvider contacts with
    | none => exact call ▸ exhausted_reckoned calm (by rw [call,decisive])
    | some contact =>
      have member : contact ∈ contacts := List.mem_of_find?_eq_some decisive
      obtain ⟨attempt,called⟩ := Option.ne_none_iff_exists'.mp (call ▸ calm.unraised contact member)
      have decided : (deciding (callFor request) contacts).bind (callFor request) =
        some attempt := by
        rw [call,decisive,Option.bind_some,called]
      have billed : actualTokens attempt.body = reported tables format request contacts run := by
        simp only [reported,call,decisive,streams,called,Option.bind_some,
          Bool.false_eq_true,if_false]
      simp only [served,called,conclude,calm.closing]
      rcases decided_cases (List.find?_some decisive) called with good | client
      · rw [if_pos good,settleStatement,billed]
        exact ⟨_,_,rfl,.succeeded _ attempt good (by rw [call]; rfl) decided rfl⟩
      · rw [if_neg (by rw [client]; decide)]
        refine ⟨_,_,rfl,.refused _ attempt _ client (by rw [call]; rfl) decided ?_⟩
        exact callProvider_status called client

/-- What a request's run is to come to: the attempts that it makes, one statement about its own row,
and a row and a status that follow from the outcomes. -/
structure Accounted (tables : Unicode.Tables) (format : Json.FloatFormat)
    (request : Request) (size : Int) (contacts : List Contact) (run : Run) (later : List Row)
    (statements : List Statement) (result : RouteResult) : Prop where
  contacted : Contacted (callFor request) contacts result.attempts
  once : ∃ statement, statements = [statement] ∧ statement.reservation = reservationOf request size
  others : (applyAll later statements).filter (fun row => row.requestId ≠ request.requestId) =
    later.filter (fun row => row.requestId ≠ request.requestId)
  deleted : (∀ row ∈ applyAll later statements, row.requestId ≠ request.requestId) ↔
    ∀ attempt ∈ result.attempts, ¬ Ends attempt ∧ attempt.outcome ≠ .timeout
  billed : (∃ attempt ∈ result.attempts, attempt.outcome = .success) →
    Charged (applyAll later statements) request.requestId
      ((reported tables format request contacts run).getD size)
  timeout : result.statusCode = 504 ↔ ∀ attempt ∈ result.attempts, attempt.outcome = .timeout
  badGateway : result.statusCode = 502 ↔ (∀ attempt ∈ result.attempts, ¬ Ends attempt) ∧
    ∃ attempt ∈ result.attempts, attempt.outcome ≠ .timeout

private theorem others_kept (statement : Statement) (requestId : String) (later : List Row)
    (own : statement.reservation.requestId = requestId) :
    (statement.apply later).filter (fun row => row.requestId ≠ requestId) =
      later.filter (fun row => row.requestId ≠ requestId) := by
  subst own
  cases statement with
  | settle reservation amount =>
    simp only [Statement.apply,settle,Statement.reservation]
    induction later with
    | nil => rfl
    | cons row later ih =>
      by_cases same : row.requestId = reservation.requestId
      · simp [same] at ih ⊢
        exact ih
      · simp [same] at ih ⊢
        exact ih
  | release reservation =>
    simp only [Statement.apply,release,Statement.reservation,List.filter_filter]
    apply List.filter_congr
    intro row _
    by_cases same : row.requestId = reservation.requestId <;> simp [same]

private theorem settle_present (reservation : Reservation) (amount : Int) {later : List Row}
    (held : Pending later reservation.requestId) :
    ¬ ∀ row ∈ applyAll later [.settle reservation amount],
      row.requestId ≠ reservation.requestId := by
  intro absent
  obtain ⟨⟨row,present,own⟩,-⟩ := settled_charged reservation amount held
  exact absent row present own

private theorem timedOut_isEmpty_iff (attempts : List Attempt) :
    (timedOut attempts).isEmpty = true ↔ ∀ attempt ∈ attempts, attempt.outcome ≠ .timeout := by
  simp [timedOut]

private theorem timedOut_length_iff (attempts : List Attempt) :
    (timedOut attempts).length = attempts.length ↔
    ∀ attempt ∈ attempts, attempt.outcome = .timeout := by
  simp [timedOut]

private theorem exhausted_accounted (result : RouteResult) (later : List Row)
    (held : Pending later request.requestId)
    (contacted : Contacted (callFor request) contacts result.attempts)
    (onward : ∀ attempt ∈ result.attempts, ¬ Ends attempt)
    (status : result.statusCode = if (timedOut result.attempts).length =
      result.attempts.length then 504 else 502) :
    Accounted tables format request size contacts run later
      [if (timedOut result.attempts).isEmpty then .release (reservationOf request size)
        else .settle (reservationOf request size) size] result := by
  refine ⟨contacted,⟨_,rfl,?_⟩,?_,?_,?_,?_,?_⟩
  · split_ifs <;> rfl
  · apply others_kept
    split_ifs <;> rfl
  · by_cases free : (timedOut result.attempts).isEmpty = true
    · rw [if_pos free]
      refine iff_of_true ?_ (fun attempt member =>
        ⟨onward attempt member,(timedOut_isEmpty_iff _).mp free attempt member⟩)
      exact released_absent (reservationOf request size) List.mem_cons_self
    · rw [if_neg free]
      refine iff_of_false (settle_present (reservationOf request size) size held)
        (fun none => free ?_)
      exact (timedOut_isEmpty_iff _).mpr (fun attempt member => (none attempt member).2)
  · rintro ⟨attempt,member,good⟩
    exact absurd (Or.inl good) (onward attempt member)
  · rw [status,← timedOut_length_iff]
    split_ifs with every <;> simp [every]
  · rw [status]
    split_ifs with every
    · refine iff_of_false (by decide) ?_
      rintro ⟨-,attempt,member,other⟩
      exact other ((timedOut_length_iff _).mp every attempt member)
    · refine iff_of_true rfl ⟨onward,?_⟩
      rw [timedOut_length_iff] at every
      push Not at every
      exact every

private theorem ended_accounted (result : RouteResult) (attempt : Attempt) (amount : Int)
    (ends : Ends attempt) (later : List Row) (held : Pending later request.requestId)
    (contacted : Contacted (callFor request) contacts result.attempts)
    (last : attempt ∈ result.attempts) (status : result.statusCode < 500)
    (billed : (∃ attempt ∈ result.attempts, attempt.outcome = .success) →
      amount = (reported tables format request contacts run).getD size) :
    Accounted tables format request size contacts run later
      [.settle (reservationOf request size) amount] result := by
  have punctual : attempt.outcome ≠ .timeout := by
    rcases ends with good | client
    · rw [good]
      decide
    · rw [client]
      decide
  refine ⟨contacted,⟨_,rfl,rfl⟩,others_kept (.settle (reservationOf request size) amount)
    request.requestId later rfl,
    ?_,?_,?_,?_⟩
  · refine iff_of_false (settle_present (reservationOf request size) amount held) (fun none => ?_)
    exact (none attempt last).1 ends
  · intro good
    rw [← billed good]
    exact settled_charged (reservationOf request size) amount held
  · exact iff_of_false (by omega) (fun every => punctual (every attempt last))
  · exact iff_of_false (by omega) (fun ⟨onward,_⟩ => onward attempt last ends)

/-- The failover table, for every list of providers and every assignment of outcomes. -/
theorem route_accounted (entry : Admitted limiter rows request size admitted decision)
    (calm : Calm request contacts run) (later : List Row) (held : Pending later request.requestId) :
    ∃ result, (route tables format limiter rows request contacts run).result = some result ∧
      Accounted tables format request size contacts run later
        (route tables format limiter rows request contacts run).statements result := by
  obtain ⟨committed,answered⟩ :=
    @route_admitted tables format _ _ _ _ _ _ contacts run entry calm.admission
  obtain ⟨statement,result,concluded,reckoned⟩ :=
    @calm_reckoned tables format _ size decision _ _ calm
  rw [concluded] at committed answered
  refine ⟨result,answered,?_⟩
  rw [committed]
  have contacted := attemptsOf_contacted (callFor request) contacts calm.unraised
  have onward := tried_onward (callFor request) contacts
  cases reckoned with
  | exhausted result undecided attempts status =>
    rw [attemptsOf,undecided,Option.bind_none,Option.toList_none,List.append_nil] at contacted
    rw [← attempts] at contacted onward status ⊢
    exact exhausted_accounted result later held contacted onward status
  | succeeded result attempt good attempts decided status =>
    rw [attemptsOf,decided,Option.toList_some,← attempts] at contacted
    exact ended_accounted result attempt _ (Or.inl good) later held contacted
      (by simp [attempts]) (by omega)
      (fun _ => rfl)
  | refused result attempt amount client attempts decided status =>
    rw [attemptsOf,decided,Option.toList_some,← attempts] at contacted
    refine ended_accounted result attempt amount (Or.inr client) later held contacted
      (by simp [attempts]) (by omega) ?_
    rintro ⟨other,member,good⟩
    rw [attempts] at member
    rcases List.mem_append.mp member with failed | same
    · exact absurd (Or.inl good) (onward other failed)
    · rw [List.mem_singleton.mp same,client] at good
      contradiction

end Runs

/-- A timeout and then a success that reports no usage. -/
theorem route_accounted_second : ∃ result,
    (route Unicode.ascii .verbatim defaultLimiter [] (firstRequest [])
      [lateContact,⟨⟨lit "secondary"⟩,9,.answered 200 .null,.unreachable⟩] ⟨.done,.done,.done,
        .started 0 true .done⟩).result =
        some result ∧
    Accounted Unicode.ascii .verbatim (firstRequest []) 1025
      [lateContact,⟨⟨lit "secondary"⟩,9,.answered 200 .null,.unreachable⟩] ⟨.done,.done,.done,
        .started 0 true .done⟩
      [firstRow]
      (route Unicode.ascii .verbatim defaultLimiter [] (firstRequest [])
        [lateContact,⟨⟨lit "secondary"⟩,9,.answered 200 .null,.unreachable⟩] ⟨.done,.done,.done,
          .started 0 true .done⟩).statements
      result := by
  apply route_accounted (firstRequest_admitted (by decide +kernel)) ⟨rfl,rfl,⟨0,rfl,?_⟩,?_⟩
    [firstRow] firstRow_pending
  · simp [lateContact]
  · simp [callFor,wantsStream,firstRequest,lateContact,callProvider,Json.lookup,Json.truthy]

end QuilrMcp.Router.Failover
