import QuilrMcp.Library.JsonLines
import QuilrMcp.Library.Relay
import QuilrMcp.Library.Utf8

/-! The stdio transport. Each raw line is handed on to the protocol library, dropped, or answered with a
JSON-RPC error; the errors go through a queue that a pump drains into the stream that the
server's own messages are written to. -/
namespace QuilrMcp.CustomerMcp.Transport
open Library Library.Text
open Library.Json (Value Plain lastWins lookup document dumps fileLines)
open Library.Relay (Verdict Kept)
open Library.Trace (run)

def parseError : Int := -32700
def invalidRequest : Int := -32600
def invalidParams : Int := -32602

/-- `_REJECTION_BUFFER` -/
def rejectionBuffer : Nat := 256

inductive RequestId
  | int (value : Int)
  | str (text : Str)
  deriving DecidableEq

/-- A boolean is an integer to the language, and none here. -/
def recoverableId : Value → Option RequestId
  | .int value => some (.int value)
  | .str text => some (.str text)
  | _ => none

structure ErrorFrame where
  requestId : Option RequestId
  code : Int
  message : Str
  deriving DecidableEq

section Classify
variable (acceptsId : Str → Bool)

/-- The frame is built by the protocol library, which checks the text of an id and raises if it does not accept it. -/
def error (code : Int) (message : Str) (requestId : Option RequestId) : Verdict ErrorFrame :=
  match requestId with
  | some (.str text) => if acceptsId text then .answer ⟨requestId,code,message⟩ else .failure
  | _ => .answer ⟨requestId,code,message⟩

def isVersion : Option Value → Bool
  | some (.str version) => version = lit "2.0"
  | _ => false

def isMethod : Option Value → Bool
  | some (.str method) => !method.isEmpty
  | _ => false

/-- Absent, null or an object. -/
def isParams : Option Value → Bool
  | none => true
  | some .null => true
  | some (.dict _) => true
  | _ => false

/-- The error for a malformed request; a malformed notification is dropped. -/
def reject (payload : List (Str × Value)) (code : Int) (message : Str) : Verdict ErrorFrame :=
  match lookup (lit "id") payload with
  | none => .drop
  | some id => error acceptsId code message (recoverableId id)

def classifyPayload : Value → Verdict ErrorFrame
  | .list _ =>
    error acceptsId invalidRequest
      (lit "Batch requests are not supported over this transport.") none
  | .dict payload =>
    if (lookup (lit "method") payload).isNone &&
        ((lookup (lit "result") payload).isSome || (lookup (lit "error") payload).isSome) then .pass
    else if !isVersion (lookup (lit "jsonrpc") payload) then
      reject acceptsId payload invalidRequest
        (lit "Invalid Request: 'jsonrpc' must be exactly \"2.0\".")
    else if !isMethod (lookup (lit "method") payload) then
      reject acceptsId payload invalidRequest
        (lit "Invalid Request: 'method' must be a non-empty string.")
    else if !isParams (lookup (lit "params") payload) then
      reject acceptsId payload invalidParams (lit "Invalid params: 'params' must be an object.")
    else if (lookup (lit "id") payload).any (fun id => (recoverableId id).isNone) then
      error acceptsId invalidRequest
        (lit "Invalid Request: 'id' must be a string or an integer.") none
    else .pass
  | _ => error acceptsId invalidRequest
      (lit "Invalid Request: a request must be a JSON object.") none

variable (tables : Unicode.Tables) (format : Json.FloatFormat)

def classifyLine (line : Str) : Verdict ErrorFrame :=
  if tables.strip line = [] then .drop
  else match Json.loads format lastWins line with
    | .error _ =>
      error acceptsId parseError (lit "Parse error: the request is not valid JSON.") none
    | .ok payload => classifyPayload acceptsId payload

end Classify

/-- The lines of the standard input: decoded with replacement, cut at every line ending. -/
def stdinLines (octets : Bytes) : List Str := fileLines (Utf8.decodeReplace octets)

/-- A message that answers a request of the server's own. -/
def IsResponse (payload : List (Str × Value)) : Prop :=
  (lookup (lit "method") payload).isNone ∧
    ((lookup (lit "result") payload).isSome ∨ (lookup (lit "error") payload).isSome)

structure WellFormed (payload : List (Str × Value)) : Prop where
  version : isVersion (lookup (lit "jsonrpc") payload) = true
  method : isMethod (lookup (lit "method") payload) = true
  params : isParams (lookup (lit "params") payload) = true
  id : ∀ id ∈ lookup (lit "id") payload, (recoverableId id).isSome

instance (payload : List (Str × Value)) : Decidable (IsResponse payload) :=
  inferInstanceAs (Decidable (_ ∧ _))

instance (payload : List (Str × Value)) : Decidable (WellFormed payload) :=
  decidable_of_iff (isVersion (lookup (lit "jsonrpc") payload) = true ∧
    isMethod (lookup (lit "method") payload) = true ∧
      isParams (lookup (lit "params") payload) = true ∧ ∀ id ∈ lookup (lit "id") payload,
        (recoverableId id).isSome)
    ⟨fun ⟨version,method,params,id⟩ => ⟨version,method,params,id⟩,
      fun ⟨version,method,params,id⟩ => ⟨version,method,params,id⟩⟩

section Sorting
variable (acceptsId : Str → Bool)

theorem reject_eq (payload : List (Str × Value)) (code : Int) (message : Str) :
    reject acceptsId payload code message =
    (lookup (lit "id") payload).elim .drop (fun id => error acceptsId code message
      (recoverableId id)) := by
  cases found : lookup (lit "id") payload <;> simp [reject,found]

/-- An object is handed on where it is a response or well formed. Any other is dropped if it has no id,
and answered with an error that has its id if it has one. -/
theorem classify_dict (payload : List (Str × Value)) :
    ((IsResponse payload ∨ WellFormed payload) ∧
      classifyPayload acceptsId (.dict payload) = .pass) ∨
    (¬ (IsResponse payload ∨ WellFormed payload) ∧ ∃ code message, (code = invalidRequest ∨
      code = invalidParams) ∧
      classifyPayload acceptsId (.dict payload) = reject acceptsId payload code message) := by
  rw [classifyPayload]
  by_cases response : (lookup (lit "method") payload).isNone &&
      ((lookup (lit "result") payload).isSome || (lookup (lit "error") payload).isSome)
  · rw [if_pos response]
    simp only [Bool.and_eq_true,Bool.or_eq_true] at response
    exact Or.inl ⟨Or.inl response,rfl⟩
  · rw [if_neg response]
    simp only [Bool.and_eq_true,Bool.or_eq_true] at response
    have malformed (bad : ¬ WellFormed payload) : ¬ (IsResponse payload ∨ WellFormed payload) := by
      rintro (answered | formed)
      · exact response answered
      · exact bad formed
    by_cases version : isVersion (lookup (lit "jsonrpc") payload) = true
    · by_cases method : isMethod (lookup (lit "method") payload) = true
      · by_cases params : isParams (lookup (lit "params") payload) = true
        · simp only [version,method,params,Bool.not_true,Bool.false_eq_true,if_false]
          cases found : lookup (lit "id") payload with
          | none =>
            exact Or.inl ⟨Or.inr ⟨version,method,params,by simp [found]⟩,rfl⟩
          | some id =>
            cases recovered : recoverableId id with
            | none =>
              refine Or.inr ⟨malformed (fun formed => ?_),_,
                lit "Invalid Request: 'id' must be a string or an integer.",
                Or.inl rfl,?_⟩
              · have usable := formed.id id found
                rw [recovered] at usable
                contradiction
              · simp only [Option.any_some,recovered,Option.isNone_none,if_true,reject_eq,found,
                  Option.elim_some]
            | some usable =>
              refine Or.inl ⟨Or.inr ⟨version,method,params,by simp [found,recovered]⟩,?_⟩
              simp [recovered]
        · simp only [version,method,params,Bool.not_true,Bool.not_false,Bool.false_eq_true,
            if_false,if_true]
          exact Or.inr ⟨malformed (fun formed => params formed.params),_,_,Or.inr rfl,rfl⟩
      · simp only [version,method,Bool.not_true,Bool.not_false,Bool.false_eq_true,if_false,if_true]
        exact Or.inr ⟨malformed (fun formed => method formed.method),_,_,Or.inl rfl,rfl⟩
    · simp only [version,Bool.not_false,if_true]
      exact Or.inr ⟨malformed (fun formed => version formed.version),_,_,Or.inl rfl,rfl⟩

/-- Handed on, by what the message is. -/
def handedOn : Value → Bool
  | .dict payload => decide (IsResponse payload ∨ WellFormed payload)
  | _ => false

/-- Owed an error, by what the message is: anything malformed but a notification. -/
def isOwed : Value → Bool
  | .dict payload => !decide (IsResponse payload ∨ WellFormed payload) &&
      (lookup (lit "id") payload).isSome
  | _ => true

def echoedId : Value → Option RequestId
  | .dict payload => (lookup (lit "id") payload).bind recoverableId
  | _ => none

section Accepted
variable (accepts : ∀ id, acceptsId id = true)
include accepts

private theorem error_sound (code : Int) (message : Str) (requestId : Option RequestId) :
    error acceptsId code message requestId ≠ .failure := by
  rcases requestId with _ | ⟨value⟩ | ⟨text⟩ <;> simp [error,accepts]

theorem classifyPayload_sound (value : Value) : classifyPayload acceptsId value ≠ .failure := by
  cases value with
  | dict payload =>
    rcases classify_dict acceptsId payload with ⟨-,passed⟩ | ⟨-,code,message,-,rejected⟩
    · simp [passed]
    · rw [rejected,reject_eq]
      cases lookup (lit "id") payload with
      | none => simp
      | some id => exact error_sound acceptsId accepts _ _ _
  | list items => exact error_sound acceptsId accepts _ _ none
  | null => exact error_sound acceptsId accepts _ _ none
  | bool value => exact error_sound acceptsId accepts _ _ none
  | int value => exact error_sound acceptsId accepts _ _ none
  | float text => exact error_sound acceptsId accepts _ _ none
  | str text => exact error_sound acceptsId accepts _ _ none

theorem classifyLine_sound (tables : Unicode.Tables) (format : Json.FloatFormat) (line : Str) :
    classifyLine acceptsId tables format line ≠ .failure := by
  rw [classifyLine]
  split_ifs
  · simp
  · cases Json.loads format lastWins line with
    | error failed => exact error_sound acceptsId accepts _ _ none
    | ok payload => exact classifyPayload_sound acceptsId accepts payload

end Accepted

private theorem error_answer (code : Int) (message : Str) (requestId : Option RequestId)
    (sound : error acceptsId code message requestId ≠ .failure) :
    error acceptsId code message requestId = .answer ⟨requestId,code,message⟩ := by
  cases requestId with
  | none => rfl
  | some id =>
    cases id with
    | int value => rfl
    | str text =>
      simp only [error] at sound ⊢
      split_ifs at sound ⊢
      · rfl
      · exact absurd rfl sound

/-- What is made of a message, where the frame can be built. -/
theorem classify_sorts (value : Value) (sound : classifyPayload acceptsId value ≠ .failure) :
    (handedOn value = true ∧ isOwed value = false ∧ classifyPayload acceptsId value = .pass) ∨
    (handedOn value = false ∧ isOwed value = false ∧ classifyPayload acceptsId value = .drop) ∨
    (handedOn value = false ∧ isOwed value = true ∧ ∃ code message,
      classifyPayload acceptsId value = .answer ⟨echoedId value,code,message⟩) := by
  cases value with
  | dict payload =>
    rcases classify_dict acceptsId payload with ⟨good,passed⟩ | ⟨bad,code,message,-,refused⟩
    · exact Or.inl ⟨decide_eq_true good,by simp [isOwed,good],passed⟩
    · cases found : lookup (lit "id") payload with
      | none =>
        refine Or.inr (Or.inl ⟨decide_eq_false bad,by simp [isOwed,found],?_⟩)
        rw [refused,reject_eq,found]
        rfl
      | some id =>
        refine Or.inr (Or.inr ⟨decide_eq_false bad,by simp [isOwed,found,bad],code,message,?_⟩)
        rw [refused,reject_eq,found,Option.elim_some] at sound ⊢
        rw [error_answer acceptsId _ _ _ sound,echoedId,found,Option.bind_some]
  | list items => exact Or.inr (Or.inr ⟨rfl,rfl,_,_,rfl⟩)
  | null => exact Or.inr (Or.inr ⟨rfl,rfl,_,_,rfl⟩)
  | bool value => exact Or.inr (Or.inr ⟨rfl,rfl,_,_,rfl⟩)
  | int value => exact Or.inr (Or.inr ⟨rfl,rfl,_,_,rfl⟩)
  | float text => exact Or.inr (Or.inr ⟨rfl,rfl,_,_,rfl⟩)
  | str text => exact Or.inr (Or.inr ⟨rfl,rfl,_,_,rfl⟩)

end Sorting

section Client
variable (tables : Unicode.Tables) (format : Json.FloatFormat) (acceptsId : Str → Bool)

def line (message : Json.Style × Value) : Str := document (dumps message.1 message.2)

private theorem strip_line {message : Json.Style × Value} (sound : Json.Sound format message.2) :
    tables.strip (line message) ≠ [] := by
  obtain ⟨code,more,shape,solid,-,-,ascii⟩ := Json.dumps_head format message.1 message.2 sound
  have visible := Json.dumps_visible format message.1 message.2 sound code
    (by rw [shape]; exact List.mem_cons_self)
  have dark : tables.isSpace code = false := by
    simp only [Json.isSpace,Bool.or_eq_false_iff,beq_eq_false_iff_ne] at solid
    rw [tables.isSpace_ascii code ascii]
    simp only [Unicode.isAsciiSpace,Bool.or_eq_false_iff,Bool.and_eq_false_iff,
      decide_eq_false_iff_not]
    omega
  have begins : line message = code::(more ++ [Json.lineFeed]) := by
    rw [line,document,shape]
    rfl
  rw [Unicode.Tables.strip,begins,List.dropWhile_cons_of_neg (by simp [dark]),ne_eq,
    List.reverse_eq_nil_iff,List.dropWhile_eq_nil_iff]
  intro blank
  have bright := blank code (List.mem_reverse.mpr List.mem_cons_self)
  rw [dark] at bright
  contradiction

/-- A line is sorted by the message it was written for, whatever the style. -/
theorem classify_line {message : Json.Style × Value} (plain : Plain lastWins format message.2) :
    classifyLine acceptsId tables format (line message) = classifyPayload acceptsId message.2 := by
  rw [classifyLine,if_neg (strip_line tables format plain.sound),line,
    Json.loads_document message.1 plain]

variable {format}

/-- The lines of the standard input are those the client wrote. -/
theorem stdinLines_sent {sent : List (Json.Style × Value)} {octets : Bytes}
    (plain : ∀ message ∈ sent, Plain lastWins format message.2)
    (encoded : Encoding.encodeUtf8 (sent.flatMap line) = some octets) :
    stdinLines octets = sent.map line := by
  have texts : sent.flatMap line = (sent.map (fun message => dumps message.1 message.2)).flatMap
    document := by
    rw [List.flatMap_map]
    rfl
  have visible : ∀ text ∈ sent.map (fun message => dumps message.1 message.2),
    Json.Visible text := by
    intro text listed
    obtain ⟨message,member,rfl⟩ := List.mem_map.mp listed
    exact Json.dumps_visible format message.1 message.2 (plain message member).sound
  have characters : ∀ code ∈ sent.flatMap line, code < 0x110000 := by
    intro code member
    rw [texts] at member
    obtain ⟨text,listed,inside⟩ := List.mem_flatMap.mp member
    rcases List.mem_append.mp inside with here | ending
    · exact (visible text listed code here).2
    · rw [List.mem_singleton.mp ending]
      decide
  rw [stdinLines,Utf8.decode_encode characters encoded,texts,
    Json.fileLines_documents visible,List.map_map]
  rfl

end Client

section Transport
variable {γ : Type} (tables : Unicode.Tables) (format : Json.FloatFormat) (acceptsId : Str → Bool)

abbrev step :
    Relay.State Str ErrorFrame γ → Relay.Action γ → Option (Relay.State Str ErrorFrame γ) :=
  Relay.step (classifyLine acceptsId tables format) rejectionBuffer

abbrev Idle : Relay.State Str ErrorFrame γ → Prop :=
  Relay.Idle (classifyLine acceptsId tables format) rejectionBuffer

end Transport

/-- A malformed request and a notification. -/
def exchange : List (Json.Style × Value) :=
  [(⟨false,true⟩,.dict [(lit "id",.int 7)]),
    (⟨true,false⟩,.dict [(lit "jsonrpc",.str (lit "2.0")),(lit "method",.str (lit "ping"))])]

def exchanged : Bytes :=
  lit "\x7b\"id\":7\x7d\n\x7b\"jsonrpc\": \"2.0\", \"method\": \"ping\"\x7d\n"

/-- Behind a message of the server's own. -/
def exchangeEnd : Relay.State Str ErrorFrame Str where
  incoming := []
  passed := [lit "\x7b\"jsonrpc\": \"2.0\", \"method\": \"ping\"\x7d\n"]
  waiting := none
  queue := []
  held := none
  output := [.inr (lit "pong"),.inl ⟨some (.int 7),invalidRequest,
    lit "Invalid Request: 'jsonrpc' must be exactly \"2.0\"."⟩]
  stopped := false

theorem exchange_plain :
    ∀ message ∈ exchange, Plain lastWins Json.FloatFormat.verbatim message.2 := by
  intro message member
  simp only [exchange,List.mem_cons,List.not_mem_nil,or_false] at member
  rcases member with rfl | rfl
  · refine ⟨?_,⟨rfl,trivial,trivial⟩,?_⟩
    · simp only [Json.Sound,Json.SoundFields]; decide
    · simp only [Json.Unpaired,Json.UnpairedFields]; decide
  · refine ⟨?_,⟨rfl,trivial,trivial,trivial⟩,?_⟩
    · simp only [Json.Sound,Json.SoundFields]; decide
    · simp only [Json.Unpaired,Json.UnpairedFields]; decide

theorem exchange_encoded : Encoding.encodeUtf8 (exchange.flatMap line) = some exchanged := by
  decide +kernel

private theorem run_two {sort : Str → Verdict ErrorFrame} {first second : Str}
    {frame : ErrorFrame} (pong : Str) (answered : sort first = .answer frame)
    (passed : sort second = .pass) :
    run (Relay.step sort rejectionBuffer) (.start [first,second]) [.read,.take,.other pong,
      .read,.hand] =
      some ⟨[],[second],none,[],none,[.inr pong,.inl frame],false⟩ := by
  simp [run,Relay.step,Relay.receive,Relay.State.start,Relay.takeFirst,Relay.handOver,answered,
    passed,rejectionBuffer]

private theorem exchange_run :
    run (step Unicode.ascii .verbatim (fun _ => true)) (.start (stdinLines exchanged))
    [.read,.take,.other (lit "pong"),.read,.hand] = some exchangeEnd := by
  obtain ⟨first,second,-⟩ :=
    List.forall_mem_cons.mp exchange_plain |>.imp id List.forall_mem_cons.mp
  rw [stdinLines_sent exchange_plain exchange_encoded]
  exact run_two (lit "pong")
    ((classify_line Unicode.ascii .verbatim (fun _ => true) first).trans rfl)
    ((classify_line Unicode.ascii .verbatim (fun _ => true) second).trans rfl)

private theorem exchange_idle : Idle Unicode.ascii .verbatim (fun _ => true) exchangeEnd := by
  intro action works
  cases action with
  | read => rfl
  | take => rfl
  | hand => rfl
  | other message => contradiction
  | stop => contradiction

section Transport
variable {γ : Type} (tables : Unicode.Tables) (format : Json.FloatFormat) (acceptsId : Str → Bool)

/-- However the reader, the pump and the server are interleaved, and wherever the transport is torn down:
the library has been given a first part of the lines without those that are dropped or answered, as they are
and in order; their errors are in the write stream in that order, each once, or on their way; no more than
the queue and two hands hold is on its way; and the server's own messages are all written in order. -/
theorem transport_conserves (octets : Bytes) {actions : List (Relay.Action γ)}
    {final : Relay.State Str ErrorFrame γ}
    (taken : run (step tables format acceptsId) (.start (stdinLines octets)) actions = some final) :
    ∃ seen unread, stdinLines octets = seen ++ unread ∧
      final.passed = seen.filter (Relay.passes (classifyLine acceptsId tables format)) ∧
      final.handed ++ final.pending =
        seen.filterMap (Relay.answer (classifyLine acceptsId tables format)) ∧
      final.queue.length ≤ rejectionBuffer ∧ final.pending.length ≤ rejectionBuffer + 2 ∧
      final.others = actions.filterMap Relay.Action.written := by
  obtain ⟨seen,kept⟩ := Relay.run_kept taken
  exact ⟨seen,final.incoming,kept.read,kept.passed,kept.answered,kept.bounded,kept.pending_length,
    Relay.run_others taken⟩

theorem exchange_conserved : ∃ seen unread, stdinLines exchanged = seen ++ unread ∧
    exchangeEnd.passed =
      seen.filter (Relay.passes (classifyLine (fun _ => true) Unicode.ascii .verbatim)) ∧
    exchangeEnd.handed ++ exchangeEnd.pending =
      seen.filterMap (Relay.answer (classifyLine (fun _ => true) Unicode.ascii .verbatim)) ∧
    exchangeEnd.queue.length ≤ rejectionBuffer ∧ exchangeEnd.pending.length ≤ rejectionBuffer + 2 ∧
    exchangeEnd.others = [lit "pong"] :=
  transport_conserves Unicode.ascii .verbatim (fun _ => true) exchanged exchange_run

/-- A transport that is not torn down never gets stuck: it takes at most three steps a line, where it can
go no further every line has been handed on, dropped or answered, and if the library accepts the ids it
can get there from wherever it has come to. -/
theorem transport_settles (octets : Bytes) {actions : List (Relay.Action γ)}
    {final : Relay.State Str ErrorFrame γ}
    (taken : run (step tables format acceptsId) (.start (stdinLines octets)) actions = some final)
    (running : final.stopped = false) :
    actions.countP Relay.Action.works ≤ 3 * (stdinLines octets).length ∧
    (Idle tables format acceptsId final →
      final.passed =
        (stdinLines octets).filter (Relay.passes (classifyLine acceptsId tables format)) ∧
      final.handed =
        (stdinLines octets).filterMap (Relay.answer (classifyLine acceptsId tables format))) ∧
    ((∀ id, acceptsId id = true) →
      ∃ more last, run (step tables format acceptsId) final more = some last ∧
      last.stopped = false ∧ Idle tables format acceptsId last) := by
  obtain ⟨seen,kept⟩ := Relay.run_kept taken
  refine ⟨?_,?_,?_⟩
  · have worked := Relay.run_work taken
    simp only [Relay.State.work,Relay.State.start,List.length_nil,Option.toList_none] at worked
    omega
  · intro idle
    obtain ⟨rfl,-,empty⟩ := kept.idle (by decide) running idle
    have answered := kept.answered
    rw [empty,List.append_nil] at answered
    exact ⟨kept.passed,answered⟩
  · intro accepts
    apply Relay.exists_idle final running
    intro line _
    exact classifyLine_sound acceptsId accepts tables format line

theorem exchange_settled : exchangeEnd.handed =
    (stdinLines exchanged).filterMap
    (Relay.answer (classifyLine (fun _ => true) Unicode.ascii .verbatim)) :=
  ((transport_settles Unicode.ascii .verbatim (fun _ => true) exchanged exchange_run rfl).2.1
    exchange_idle).2

/-- A client that writes its messages one a line, in any style, sees them through: the library is given
exactly the responses and the well-formed requests and notifications, as they were written and in order, and
every other message but a notification is answered with one error, in order, that has its id where the id
is an integer or a string. -/
theorem messages_delivered (sent : List (Json.Style × Value)) (octets : Bytes)
    (plain : ∀ message ∈ sent, Plain lastWins format message.2)
    (encoded : Encoding.encodeUtf8 (sent.flatMap line) = some octets)
    {actions : List (Relay.Action γ)} {final : Relay.State Str ErrorFrame γ}
    (taken : run (step tables format acceptsId) (.start (stdinLines octets)) actions = some final)
    (running : final.stopped = false) (idle : Idle tables format acceptsId final) :
    final.passed = (sent.filter (fun message => handedOn message.2)).map line ∧
    final.handed.map ErrorFrame.requestId =
      (sent.filter (fun message => isOwed message.2)).map (fun message => echoedId message.2) := by
  obtain ⟨seen,kept⟩ := Relay.run_kept taken
  obtain ⟨rfl,-,empty⟩ := kept.idle (by decide) running idle
  have passed := kept.passed
  have handed := kept.answered
  have sound := kept.sound running
  rw [empty,List.append_nil] at handed
  rw [stdinLines_sent plain encoded] at passed handed sound
  rw [passed,handed]
  clear passed handed encoded
  induction sent with
  | nil => exact ⟨rfl,rfl⟩
  | cons message sent ih =>
    obtain ⟨first,later⟩ := List.forall_mem_cons.mp plain
    rw [List.map_cons] at sound
    obtain ⟨built,sound⟩ := List.forall_mem_cons.mp sound
    obtain ⟨passed,handed⟩ := ih later sound
    have sorted := classify_line tables format acceptsId first
    rw [sorted] at built
    simp only [List.map_cons,List.filter_cons,List.filterMap_cons,Relay.passes,Relay.answer,
      sorted] at passed handed ⊢
    rcases classify_sorts acceptsId message.2 built with ⟨on,owed,verdict⟩ | ⟨on,owed,
      verdict⟩ | ⟨on,owed,code,text,verdict⟩
    · simp only [verdict,on,owed,Bool.false_eq_true,if_true,if_false,List.map_cons]
      exact ⟨congrArg _ passed,handed⟩
    · simp only [verdict,on,owed,Bool.false_eq_true,if_false]
      exact ⟨passed,handed⟩
    · simp only [verdict,on,owed,Bool.false_eq_true,if_true,if_false,List.map_cons]
      exact ⟨passed,congrArg _ handed⟩

theorem exchange_delivered :
    exchangeEnd.passed = (exchange.filter (fun message => handedOn message.2)).map line ∧
    exchangeEnd.handed.map ErrorFrame.requestId =
      (exchange.filter (fun message => isOwed message.2)).map (fun message => echoedId message.2) :=
  messages_delivered Unicode.ascii .verbatim (fun _ => true) exchange exchanged exchange_plain
    exchange_encoded exchange_run rfl
    exchange_idle

end Transport

end QuilrMcp.CustomerMcp.Transport
