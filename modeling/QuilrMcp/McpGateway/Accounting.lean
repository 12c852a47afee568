import QuilrMcp.McpGateway.Forwarding
import Mathlib.Data.List.Forall2
import Mathlib.Data.List.Perm.Basic

/-! Whether the client's reply has one object for each request: where downstream answers a batch, and
where it does not answer at all. -/
namespace QuilrMcp.McpGateway.Accounting
open Library Library.Text
open Library.Json (Value lookup)
open Forwarding (Understood)

section Accounting
variable (tables : Unicode.Tables) (format : Json.FloatFormat) (config : Config)

def mayCarryBody (status : Nat) : Prop := 200 ≤ status ∧ status ≠ 204 ∧ status ≠ 205 ∧ status ≠ 304

/-- The objects in a body. The names of media types are the same in both cases. -/
def objectsIn (events : Bytes → Option (List Value)) (contentType : Str) (content : Bytes) :
    Option (List Value) :=
  if content.isEmpty then some []
  else if isJson (contentType.map Unicode.asciiLower) then
    match loadContent format content with
    | some (.list items) => some items
    | some item => some [item]
    | none => none
  else if (lit "text/event-stream").isPrefixOf (contentType.map Unicode.asciiLower) then
    events content
  else none

/-- The objects that the client gets. A body that its headers call compressed and that is not cannot be read. -/
def objectsOf (events : Bytes → Option (List Value)) : ClientReply → Option (List Value)
  | .relayed downstream =>
    if downstream.compressed && !downstream.content.isEmpty then none
    else objectsIn format events downstream.contentType downstream.content
  | .rendered _ (.list items) => some items
  | .rendered _ item => some [item]
  | .raised => none

def ClientReply.status : ClientReply → Nat
  | .relayed downstream => downstream.status
  | .rendered status _ => status
  | .raised => 500

def idOf : Value → Option Value
  | .dict fields => lookup (lit "id") fields
  | _ => none

def requests (messages : List RpcMessage) : List RpcMessage := messages.filter RpcMessage.isRequest

/-- The object is the denial of a blocked request, or what it is to be for a forwarded one. -/
def Serves (principal : Principal) (forwarded : RpcMessage → Value → Prop) (message : RpcMessage)
    (object : Value) : Prop :=
  match evaluate tables principal message config.enforceMethodAllowlist with
  | some denial => denialResponse message denial = some object
  | none => forwarded message object

/-- One object for each request, in any order, and nothing else. -/
def Accounts (principal : Principal) (messages : List RpcMessage)
    (forwarded : RpcMessage → Value → Prop) (objects : List Value) : Prop :=
  ∃ order, order.Perm objects ∧ List.Forall₂ (Serves tables config principal forwarded)
    (requests messages) order

variable {tables config}
variable {principal : Principal} {forwarded : RpcMessage → Value → Prop}

private theorem denialResponse_request {message : RpcMessage} (asks : message.isRequest = true)
    (denial : Denial) :
    ∃ object, denialResponse message denial = some object := by
  rw [denialResponse,if_pos asks]
  exact ⟨_,rfl⟩

/-- The answers to the forwarded requests, in their order, make up the whole with the denials. -/
theorem accounts_of (messages : List RpcMessage) (objects : List Value)
    (each : List.Forall₂ forwarded (requests (review tables config principal messages).1) objects) :
    Accounts tables config principal messages forwarded (objects ++
      (review tables config principal messages).2) := by
  induction messages generalizing objects with
  | nil =>
    cases each
    exact ⟨[],List.Perm.refl _,List.Forall₂.nil⟩
  | cons message messages ih =>
    simp only [review,requests] at each ⊢
    cases decision : evaluate tables principal message config.enforceMethodAllowlist with
    | none =>
      simp only [decision] at each ⊢
      rw [List.filter_cons] at each
      by_cases asks : message.isRequest = true
      · rw [if_pos asks] at each
        obtain ⟨object,rest,own,later,rfl⟩ := List.forall₂_cons_left_iff.mp each
        obtain ⟨order,same,served⟩ := ih rest later
        refine ⟨object::order,same.cons object,?_⟩
        rw [requests,List.filter_cons,if_pos asks]
        exact List.Forall₂.cons (by rw [Serves,decision]; exact own) served
      · rw [if_neg asks] at each
        obtain ⟨order,same,served⟩ := ih objects each
        refine ⟨order,same,?_⟩
        rwa [requests,List.filter_cons,if_neg asks]
    | some denial =>
      simp only [decision] at each ⊢
      obtain ⟨order,same,served⟩ := ih objects each
      by_cases asks : message.isRequest = true
      · obtain ⟨object,denied⟩ := denialResponse_request asks denial
        refine ⟨object::order,?_,?_⟩
        · rw [denied,Option.toList_some,List.singleton_append]
          exact (same.cons object).trans List.perm_middle.symm
        · rw [requests,List.filter_cons,if_pos asks]
          exact List.Forall₂.cons (by rw [Serves,decision]; exact denied) served
      · refine ⟨order,?_,?_⟩
        · rwa [denialResponse,if_neg asks,Option.toList_none,List.nil_append]
        · rwa [requests,List.filter_cons,if_neg asks]

theorem requests_length (messages : List RpcMessage) : (requests messages).length =
    (requests (review tables config principal messages).1).length +
    (review tables config principal messages).2.length := by
  induction messages with
  | nil => rfl
  | cons message messages ih =>
    simp only [requests,review,List.filter_cons] at ih ⊢
    cases evaluate tables principal message config.enforceMethodAllowlist with
    | none =>
      simp only [List.filter_cons]
      split_ifs with asks
      · rw [List.length_cons,List.length_cons,ih]
        omega
      · exact ih
    | some denial =>
      simp only [denialResponse]
      split_ifs with asks
      · rw [List.length_cons,ih,List.length_append,Option.toList_some,List.length_singleton]
        omega
      · simpa using ih

theorem accounts_length {messages : List RpcMessage} {objects : List Value}
    (accounts : Accounts tables config principal messages forwarded objects) : objects.length =
      (requests (review tables config principal messages).1).length +
      (review tables config principal messages).2.length := by
  obtain ⟨order,same,served⟩ := accounts
  rw [← requests_length,← same.length_eq,served.length_eq]

private theorem forall₂_left {α β : Type} {R : α → β → Prop} {items : List α} {others : List β}
    (paired : List.Forall₂ R items others) {item : α} (member : item ∈ items) :
    ∃ other ∈ others, R item other := by
  induction paired with
  | nil => contradiction
  | cons related _ ih =>
    rcases List.mem_cons.mp member with rfl | later
    · exact ⟨_,List.mem_cons_self,related⟩
    · obtain ⟨other,present,known⟩ := ih later
      exact ⟨other,List.mem_cons_of_mem _ present,known⟩

theorem accounts_forwarded {messages : List RpcMessage} {objects : List Value}
    {message : RpcMessage} (accounts : Accounts tables config principal messages forwarded objects)
    (member : message ∈ requests (review tables config principal messages).1) :
    ∃ object ∈ objects, forwarded message object := by
  obtain ⟨order,same,served⟩ := accounts
  obtain ⟨allowed,asks⟩ := List.mem_filter.mp member
  rw [Forwarding.review_allowed] at allowed
  obtain ⟨known,passes⟩ := List.mem_filter.mp allowed
  obtain ⟨object,present,own⟩ := forall₂_left served (List.mem_filter.mpr ⟨known,asks⟩)
  rw [Serves,Option.isNone_iff_eq_none.mp passes] at own
  exact ⟨object,same.subset present,own⟩

private theorem evaluate_coded {message : RpcMessage} {denial : Denial} {enforce : Bool}
    (decision : evaluate tables principal message enforce = some denial) :
    denial.code ≠ upstreamUnavailable := by
  simp only [evaluate] at decision
  split_ifs at decision with unknown other
  · cases decision
    decide
  · split at decision
    · split at decision
      · cases decision
        decide
      · split_ifs at decision
        cases decision
        decide
    · cases decision
      decide

theorem denials_coded (messages : List RpcMessage) (object : Value)
    (member : object ∈ (review tables config principal messages).2) :
    ∃ code message id data, code ≠ upstreamUnavailable ∧
    object = errorResponse code message id data := by
  induction messages with
  | nil => contradiction
  | cons message messages ih =>
    simp only [review] at member
    cases decision : evaluate tables principal message config.enforceMethodAllowlist with
    | none =>
      simp only [decision] at member
      exact ih member
    | some denial =>
      simp only [decision] at member
      rcases List.mem_append.mp member with first | later
      · rw [Option.mem_toList,denialResponse] at first
        split_ifs at first
        cases first
        exact ⟨_,_,_,_,evaluate_coded decision,rfl⟩
      · exact ih later

variable {format : Json.FloatFormat} {request : Request} {parsed : ParsedPayload}
    {first : RpcMessage}
variable {rest : List RpcMessage}

theorem handleMcpPost_contact
    (understood : Understood tables format config request principal parsed)
    (forwards : (review tables config principal parsed.messages).1 = first::rest) :
    ∃ sent, handleMcpPost tables format config request =
      .contact sent (review tables config principal parsed.messages).2
        (first::rest) parsed.isBatch := by
  obtain ⟨resolved,body,read,ok⟩ := understood
  have allowed : Forwarding.allowedMessages tables config principal parsed = first::rest := by
    rw [← forwards,Forwarding.review_allowed,Forwarding.allowedMessages]
  have octets := Forwarding.readBoundedBody_octets request config.maxBodyBytes body read
  obtain ⟨sent,found⟩ : ∃ sent, forwardBody body parsed first rest = some sent := by
    rcases (Forwarding.forwardBody_cases tables format config principal body parsed first rest
      octets ok allowed).2 with
      ⟨-,found⟩ | ⟨-,-,found⟩
    · exact ⟨_,found⟩
    · exact ⟨_,found⟩
  have reviewed : review tables config principal parsed.messages =
      (first::rest,(review tables config principal parsed.messages).2) := by rw [← forwards]
  refine ⟨sent,?_⟩
  unfold handleMcpPost
  simp only [resolved,read,ok]
  rw [reviewed]
  simp only [found]

def failureOf (error : DownstreamError) (message : RpcMessage) : Value :=
  errorResponse upstreamUnavailable error.summary message.id none

/-- One error object for each request with its id, the denial or the failure, and no other. -/
def FailureReported (tables : Unicode.Tables) (format : Json.FloatFormat) (config : Config)
    (principal : Principal) (parsed : ParsedPayload) (error : DownstreamError)
    (reply : ClientReply) : Prop :=
  ∃ objects, objectsOf format (fun _ => none) reply = some objects ∧
    Accounts tables config principal parsed.messages (fun message object => object =
      failureOf error message) objects

private theorem errorResponse_inj {code code' : Int} {text text' : Str} {id id' : Value}
    {data data' : Option Value}
    (same : errorResponse code text id data = errorResponse code' text' id' data') :
    code = code' ∧ id = id' := by
  simp only [errorResponse,Value.dict.injEq,List.cons.injEq,Prod.mk.injEq,true_and,and_true,
    List.cons_append] at same
  exact ⟨by simpa using same.2.1,same.1⟩

private theorem response_list (events : Bytes → Option (List Value)) (items objects : List Value)
    (status : Nat) :
    objectsOf format events (jsonRpcResponse (.list items) status) = some objects ↔
      items = objects ∧ ∀ item ∈ items, (Json.render item).isSome = true := by
  rw [← Json.render_list,jsonRpcResponse]
  split_ifs with known
  · simp [objectsOf,known]
  · simp [objectsOf,known]

private theorem response_item (events : Bytes → Option (List Value)) (item : Value)
    (single : ∀ items, item ≠ .list items) (objects : List Value) (status : Nat) :
    objectsOf format events (jsonRpcResponse item status) = some objects ↔
      [item] = objects ∧ (Json.render item).isSome = true := by
  rw [jsonRpcResponse]
  split_ifs with known
  · cases item with
    | list items => exact absurd rfl (single items)
    | _ => simp [objectsOf,known]
  · simp [objectsOf,known]

private theorem single_undenied
    (understood : Understood tables format config request principal parsed)
    (forwards : (review tables config principal parsed.messages).1 = first::rest)
    (single : parsed.isBatch = false) :
    (review tables config principal parsed.messages).2 = [] := by
  obtain ⟨-,body,-,ok⟩ := understood
  obtain ⟨document,-,shape⟩ := Forwarding.parsePayload_ok tables format body parsed ok
  rcases (Forwarding.parseDocument_cases document parsed shape).2 with ⟨batch,-⟩ | ⟨-,
    message,only,-⟩
  · rw [batch] at single
    contradiction
  · rw [only,review] at forwards ⊢
    cases decision : evaluate tables principal message config.enforceMethodAllowlist with
    | none => rfl
    | some denial =>
      simp only [decision] at forwards
      contradiction

private theorem failure_objects
    (understood : Understood tables format config request principal parsed)
    (forwards : (review tables config principal parsed.messages).1 = first::rest)
    (forward : Bytes → Except DownstreamError Downstream) (error : DownstreamError)
    (failed : ∀ sent, forward sent = .error error) (objects : List Value) :
    objectsOf format (fun _ => none) (respond tables format config request forward) = some objects ↔
      (review tables config principal parsed.messages).2 ++ [upstreamError error (first::rest)] =
        objects ∧
        ∀ object ∈ (review tables config principal parsed.messages).2 ++ [upstreamError error (first::rest)],
          (Json.render object).isSome = true := by
  obtain ⟨sent,contacted⟩ := handleMcpPost_contact understood forwards
  simp only [respond,contacted,failed]
  cases batch : parsed.isBatch with
  | true => exact response_list _ _ _ _
  | false =>
    rw [single_undenied understood forwards batch]
    simpa using response_item (fun _ => none) (upstreamError error (first::rest)) (fun _ =>
      nofun) objects 502

/-- The single error object accounts for a single forwarded request, if its id is the one that is taken. -/
theorem failure_reported_iff (understood : Understood tables format config request principal parsed)
    (forwards : (review tables config principal parsed.messages).1 = first::rest)
    (forward : Bytes → Except DownstreamError Downstream) (error : DownstreamError)
    (failed : ∀ sent, forward sent = .error error) :
    FailureReported tables format config principal parsed error
      (respond tables format config request forward) ↔
      ∃ message, requests (first::rest) = [message] ∧
      (first.isRequest = true ∨ message.id = .null) ∧
        (Json.render (failureOf error message)).isSome = true ∧
        ∀ denial ∈ (review tables config principal parsed.messages).2, (Json.render denial).isSome =
          true := by
  simp only [FailureReported,failure_objects understood forwards forward error failed]
  constructor
  · rintro ⟨objects,⟨rfl,rendered⟩,accounts⟩
    have one : (requests (first::rest)).length = 1 := by
      have counted := accounts_length accounts
      rw [forwards,List.length_append,List.length_singleton] at counted
      omega
    obtain ⟨message,only⟩ := List.length_eq_one_iff.mp one
    have asked : message ∈ requests (review tables config principal parsed.messages).1 := by
      rw [forwards,only]
      exact List.mem_singleton_self message
    obtain ⟨object,member,rfl⟩ := accounts_forwarded accounts asked
    have same : failureOf error message = upstreamError error (first::rest) := by
      rcases List.mem_append.mp member with denied | last
      · obtain ⟨code,text,id,data,other,shape⟩ := denials_coded _ _ denied
        exact absurd (errorResponse_inj shape).1.symm other
      · exact List.mem_singleton.mp last
    refine ⟨message,only,?_,rendered _ member,fun denial denied =>
      rendered denial (List.mem_append_left _ denied)⟩
    by_cases asks : first.isRequest = true
    · exact Or.inl asks
    · refine Or.inr ?_
      have id := (errorResponse_inj same).2
      simpa [asks] using id
  · rintro ⟨message,only,named,rendered,denials⟩
    have same : upstreamError error (first::rest) = failureOf error message := by
      have id : (if first.isRequest then first.id else Value.null) = message.id := by
        by_cases asks : first.isRequest = true
        · rw [requests,List.filter_cons,if_pos asks,List.cons.injEq] at only
          rw [if_pos asks,only.1]
        · rw [if_neg asks,named.resolve_left asks]
      simp only [upstreamError,failureOf,id]
    rw [same]
    refine ⟨_,⟨rfl,List.forall_mem_append.mpr ⟨denials,by simpa using rendered⟩⟩,?_⟩
    have each : List.Forall₂ (fun message object => object = failureOf error message)
        (requests (review tables config principal parsed.messages).1)
        [failureOf error message] := by
      rw [forwards,only]
      exact List.Forall₂.cons rfl List.Forall₂.nil
    obtain ⟨order,permuted,served⟩ := accounts_of parsed.messages _ each
    exact ⟨order,permuted.trans List.perm_append_comm,served⟩

def answersId (message : RpcMessage) (answer : Value) : Prop := idOf answer = some message.id

/-- Downstream answers every request it was forwarded once, as JSON or as an event stream, and has
nothing to say to notifications alone. -/
structure Answers (format : Json.FloatFormat) (events : Bytes → Option (List Value))
    (forwarded : List RpcMessage) (downstream : Downstream) (answers : List Value) : Prop where
  read : objectsIn format events downstream.contentType downstream.content = some answers
  each : ∃ order, order.Perm answers ∧ List.Forall₂ answersId (requests forwarded) order
  bodied : downstream.content ≠ [] → mayCarryBody downstream.status
  silent : requests forwarded = [] → downstream.status = 204 ∧ downstream.content = []

/-- An answer as the client is to see it. -/
def shown (tables : Unicode.Tables) (config : Config) (principal : Principal) (answer : Value) :
    Value :=
  if config.filterToolsList then filterToolsList tables principal answer else answer

/-- One object for each request, downstream's answer or the denial, and no other, under a status that
may carry them. -/
def Delivered (tables : Unicode.Tables) (format : Json.FloatFormat) (config : Config)
    (principal : Principal) (parsed : ParsedPayload) (events : Bytes → Option (List Value))
    (answers : List Value) (reply : ClientReply) : Prop :=
  ∃ objects, objectsOf format events reply = some objects ∧
    Accounts tables config principal parsed.messages (fun message object =>
      answersId message object ∧
      ∃ answer ∈ answers, object = answer ∨ object = shown tables config principal answer) objects ∧
    (objects ≠ [] → mayCarryBody (ClientReply.status reply))

/-- The reply is passed on as it came, uncompressed, or it is JSON that holds answers, and all that is
written anew can be written. -/
def Mergeable (tables : Unicode.Tables) (config : Config) (principal : Principal)
    (parsed : ParsedPayload) (downstream : Downstream) (answers : List Value) : Prop :=
  let denials := (review tables config principal parsed.messages).2
  if denials = [] ∧ ¬ (config.filterToolsList = true ∧ isJson downstream.contentType = true) then
    downstream.compressed = true → downstream.content = []
  else isJson downstream.contentType = true ∧
    requests (review tables config principal parsed.messages).1 ≠ [] ∧
    ∀ object ∈ answers.map (shown tables config principal) ++ denials,
      (Json.render object).isSome = true

private theorem lookup_assign {key other : Str} (value : Value) (fields : List (Str × Value))
    (apart : other ≠ key) :
    lookup other (Dict.assign key value fields) = lookup other fields := by
  induction fields with
  | nil => simp [Dict.assign,lookup,apart.symm]
  | cons field fields ih =>
    rw [Dict.assign]
    split_ifs with same
    · have named : field.1 = key := by simpa using same
      simp [lookup,named,apart.symm]
    · simp [lookup,ih]

theorem shown_id (answer : Value) : idOf (shown tables config principal answer) = idOf answer := by
  rw [shown]
  split_ifs
  · unfold filterToolsList
    split
    · rfl
    · split
      · split
        · split
          · exact lookup_assign _ _ (by decide)
          · rfl
        · rfl
      · rfl
  · rfl

theorem filterToolsList_list (payload : Value) (single : ∀ items, payload ≠ .list items)
    (items : List Value) :
    filterToolsList tables principal payload ≠ .list items := by
  unfold filterToolsList
  split
  · exact single items
  · split
    · split
      · split
        · exact nofun
        · exact single items
      · exact single items
    · exact single items

theorem shown_list (payload : Value) (single : ∀ items, payload ≠ .list items)
    (items : List Value) :
    shown tables config principal payload ≠ .list items := by
  rw [shown]
  split_ifs
  · exact filterToolsList_list payload single items
  · exact single items

theorem filtered_list (items : List Value) : filtered tables config principal (.list items) =
    .list (items.map (shown tables config principal)) := by
  by_cases on : config.filterToolsList = true
  · have same : shown tables config principal = filterToolsList tables principal := by
      ext1 answer
      rw [shown,if_pos on]
    rw [filtered,if_pos on,same]
  · have same : shown tables config principal = id := by
      ext1 answer
      rw [shown,if_neg on,id]
    rw [filtered,if_neg on,same,List.map_id]

theorem filtered_item (item : Value) (single : ∀ items, item ≠ .list items) :
    filtered tables config principal item = shown tables config principal item := by
  cases item with
  | list items => exact absurd rfl (single items)
  | _ => rfl

theorem merged_list (denials items : List Value) :
    merged denials (.list items) = .list (items ++ denials) := by
  cases denials with
  | nil => simp [merged]
  | cons denial denials => rfl

private theorem merged_objects (events : Bytes → Option (List Value)) (payload : Value) (answers denials objects : List Value)
    (status : Nat) (holds : payload = .list answers ∨ (∀ items, payload ≠ .list items) ∧ answers = [payload]) :
    objectsOf format events (jsonRpcResponse (merged denials (filtered tables config principal payload)) status) = some objects ↔
      answers.map (shown tables config principal) ++ denials = objects ∧
        ∀ object ∈ answers.map (shown tables config principal) ++ denials, (Json.render object).isSome = true := by
  rcases holds with rfl | ⟨single,rfl⟩
  · rw [filtered_list,merged_list]
    exact response_list _ _ _ _
  · rw [filtered_item payload single]
    have shows := @shown_list tables config principal payload single
    cases denials with
    | nil => simpa [merged] using response_item events (shown tables config principal payload) shows objects status
    | cons denial denials =>
      have joined : merged (denial::denials) (shown tables config principal payload) =
          .list ([payload].map (shown tables config principal) ++ denial::denials) := by
        simp only [merged,List.isEmpty_cons,Bool.false_eq_true,if_false]
        rfl
      rw [joined]
      exact response_list _ _ _ _

private theorem isJson_lower {contentType : Str} (json : isJson contentType = true) :
    isJson (contentType.map Unicode.asciiLower) = true := by
  rw [isJson,List.isPrefixOf_iff_prefix] at json ⊢
  have lowered := json.map Unicode.asciiLower
  rwa [show (lit "application/json").map Unicode.asciiLower =
    lit "application/json" by decide] at lowered

private theorem content_answers {events : Bytes → Option (List Value)} {contentType : Str}
    {content : Bytes} {answers : List Value}
    (read : objectsIn format events contentType content = some answers) (filled : content ≠ [])
    (json : isJson contentType = true) :
    ∃ payload, loadContent format content = some payload ∧
      (payload = .list answers ∨ (∀ items, payload ≠ .list items) ∧ answers = [payload]) := by
  rw [objectsIn,if_neg (by simpa using filled),if_pos (isJson_lower json)] at read
  split at read
  · rename_i items loaded
    cases read
    exact ⟨_,loaded,Or.inl rfl⟩
  · rename_i item single loaded
    cases read
    exact ⟨item,loaded,Or.inr ⟨single,rfl⟩⟩
  · contradiction

private theorem loadContent_nil : loadContent format [] = none := by rfl

private theorem forall₂_right {α β : Type} {R : α → β → Prop} {P : β → Prop} {items : List α}
    {others : List β} (paired : List.Forall₂ R items others) (all : ∀ other ∈ others, P other) :
    List.Forall₂ (fun item other => R item other ∧ P other) items others := by
  induction paired with
  | nil => exact List.Forall₂.nil
  | cons related _ ih =>
    rw [List.forall_mem_cons] at all
    exact List.Forall₂.cons ⟨related,all.1⟩ (ih all.2)

private theorem response_status {events : Bytes → Option (List Value)} {payload : Value}
    {status : Nat} {objects : List Value}
    (held : objectsOf format events (jsonRpcResponse payload status) = some objects) :
    ClientReply.status (jsonRpcResponse payload status) = status := by
  unfold jsonRpcResponse at held ⊢
  split_ifs at held ⊢
  · rfl
  · contradiction

private theorem answers_account {answers : List Value} (f : Value → Value)
    (ids : ∀ answer, idOf (f answer) = idOf answer)
    (known : ∀ answer, f answer = answer ∨ f answer = shown tables config principal answer)
    (each : ∃ order, order.Perm answers ∧
      List.Forall₂ answersId (requests (review tables config principal parsed.messages).1) order) :
    Accounts tables config principal parsed.messages (fun message object =>
      answersId message object ∧
      ∃ answer ∈ answers, object = answer ∨ object = shown tables config principal answer)
      (answers.map f ++ (review tables config principal parsed.messages).2) := by
  obtain ⟨order,same,paired⟩ := each
  have served : List.Forall₂ (fun message object => answersId message object ∧
      ∃ answer ∈ answers, object = answer ∨ object = shown tables config principal answer)
      (requests (review tables config principal parsed.messages).1) (order.map f) := by
    rw [List.forall₂_map_right_iff]
    refine (forall₂_right paired (fun answer member => same.subset member)).imp ?_
    rintro message answer ⟨own,member⟩
    exact ⟨(ids answer).trans own,answer,member,known answer⟩
  obtain ⟨whole,permuted,all⟩ := accounts_of parsed.messages _ served
  exact ⟨whole,permuted.trans ((same.map f).append_right _),all⟩

/-- A reply that is not JSON is replaced by the denials, one without content is taken for malformed,
and a response that cannot be written is none. -/
theorem delivered_iff (understood : Understood tables format config request principal parsed)
    (forwards : (review tables config principal parsed.messages).1 = first::rest)
    (events : Bytes → Option (List Value)) (downstream : Downstream) (answers : List Value)
    (answered : Answers format events (first::rest) downstream answers)
    (forward : Bytes → Except DownstreamError Downstream)
    (delivered : ∀ sent, forward sent = .ok downstream) :
    Delivered tables format config principal parsed events answers
      (respond tables format config request forward) ↔
      Mergeable tables config principal parsed downstream answers := by
  obtain ⟨sent,contacted⟩ := handleMcpPost_contact understood forwards
  have replies : respond tables format config request forward =
    buildClientResponse tables format config downstream
      (review tables config principal parsed.messages).2 principal := by
    simp only [respond,contacted,delivered,understood.1]
  rw [replies]
  obtain ⟨read,each,bodied,silent⟩ := answered
  rw [← forwards] at each silent
  have filled (some_ : answers ≠ []) : downstream.content ≠ [] := by
    intro empty
    rw [objectsIn,empty] at read
    exact some_ (Option.some.inj read).symm
  simp only [Mergeable]
  by_cases relays : (review tables config principal parsed.messages).2 = [] ∧
      ¬ (config.filterToolsList = true ∧ isJson downstream.contentType = true)
  · have relayed : buildClientResponse tables format config downstream
        (review tables config principal parsed.messages).2 principal = .relayed downstream := by
      rw [buildClientResponse,if_pos (by simpa [relays.1] using not_and_or.mp relays.2)]
    have accounts := answers_account id (fun _ => rfl) (fun _ => Or.inl rfl) each
    rw [List.map_id,relays.1,List.append_nil] at accounts
    rw [relayed,if_pos relays]
    simp only [Delivered,objectsOf,read]
    constructor
    · rintro ⟨objects,held,-⟩ compressed
      split_ifs at held with broken
      simpa [compressed] using broken
    · intro whole
      refine ⟨answers,if_neg (by simpa using whole),accounts,fun some_ => bodied (filled some_)⟩
  · rw [if_neg relays]
    have rewritten : ¬ ((review tables config principal parsed.messages).2.isEmpty &&
        !(config.filterToolsList && isJson downstream.contentType)) = true := by simpa using relays
    rw [buildClientResponse,if_neg rewritten]
    cases json : isJson downstream.contentType with
    | false =>
      rw [if_pos (by rfl)]
      refine iff_of_false ?_ (fun mergeable => by simpa using mergeable.1)
      rintro ⟨objects,held,accounts,carried⟩
      have status := response_status held
      obtain ⟨rfl,-⟩ := (response_list _ _ _ _).mp held
      have counted := accounts_length accounts
      have quiet := silent (List.length_eq_zero_iff.mp (by omega))
      have denied : (review tables config principal parsed.messages).2 ≠ [] := by
        simpa [json] using relays
      have bare := carried denied
      rw [status,quiet.1] at bare
      exact bare.2.1 rfl
    | true =>
      rw [if_neg (by simp)]
      by_cases asked : requests (review tables config principal parsed.messages).1 = []
      · refine iff_of_false ?_ (fun mergeable => mergeable.2.1 asked)
        rw [(silent asked).2,loadContent_nil]
        rintro ⟨objects,held,accounts,-⟩
        obtain ⟨rfl,-⟩ := (response_list _ _ _ _).mp held
        have counted := accounts_length accounts
        rw [asked,List.length_append,List.length_singleton,List.length_nil] at counted
        omega
      · have some_ : answers ≠ [] := by
          rintro rfl
          obtain ⟨order,same,paired⟩ := each
          rw [List.perm_nil.mp same] at paired
          exact asked (List.forall₂_nil_right_iff.mp paired)
        obtain ⟨payload,loaded,holds⟩ := content_answers read (filled some_) json
        rw [loaded]
        simp only [Delivered,merged_objects events payload answers _ _ _ holds]
        constructor
        · rintro ⟨objects,⟨-,rendered⟩,-⟩
          exact ⟨trivial,asked,rendered⟩
        · rintro ⟨-,-,rendered⟩
          refine ⟨_,⟨rfl,rendered⟩,answers_account _ shown_id (fun _ => Or.inr rfl) each,
            fun _ => ?_⟩
          have held :=
            (@merged_objects _ _ _ format events payload answers _ _ downstream.status holds).mpr
              ⟨rfl,rendered⟩
          rw [response_status held]
          exact bodied (filled some_)

end Accounting

/-- A batch of a `ping` that is a notification and of a request for a method that no list knows. -/
def mixedBody : Bytes :=
  lit "[\x7b\"jsonrpc\":\"2.0\",\"method\":\"ping\"\x7d,\x7b\"jsonrpc\":\"2.0\",\"method\":\"nope\",\"id\":1\x7d]"

def mixedRequest : Request :=
  ⟨some (lit "Bearer viewer-token-xyz789"),none,[mixedBody],by decide +kernel⟩

def standard : Config := ⟨none,1048576,true,false⟩

private theorem mixedBody_reviewed : (match parsePayload Unicode.ascii .verbatim mixedBody with
      | .ok parsed => decide (parsed.isBatch = true ∧
          (review Unicode.ascii standard Forwarding.viewer parsed.messages).1.length = 1 ∧
          (requests (review Unicode.ascii standard Forwarding.viewer
            parsed.messages).1).length = 0 ∧
          (review Unicode.ascii standard Forwarding.viewer parsed.messages).2.length = 1)
      | .error _ => false) = true := by decide +kernel

private theorem mixedRequest_read :
    resolvePrincipal Unicode.ascii standard.tokens mixedRequest.authorization =
      .ok Forwarding.viewer ∧
      readBoundedBody mixedRequest standard.maxBodyBytes = some mixedBody := by decide +kernel

private theorem mixedRequest_understood : ∃ parsed first,
    Understood Unicode.ascii .verbatim standard mixedRequest Forwarding.viewer parsed ∧
    parsed.isBatch = true ∧
    (review Unicode.ascii standard Forwarding.viewer parsed.messages).1 = [first] ∧
    requests [first] = [] ∧
    (review Unicode.ascii standard Forwarding.viewer parsed.messages).2 ≠ [] := by
  have reviewed := mixedBody_reviewed
  cases ok : parsePayload Unicode.ascii .verbatim mixedBody with
  | error failure =>
    rw [ok] at reviewed
    cases reviewed
  | ok parsed =>
    rw [ok] at reviewed
    obtain ⟨batch,one,quiet,denied⟩ := of_decide_eq_true reviewed
    obtain ⟨first,shape⟩ := List.length_eq_one_iff.mp one
    refine ⟨parsed,first,⟨mixedRequest_read.1,mixedBody,mixedRequest_read.2,ok⟩,batch,shape,?_,?_⟩
    · rwa [shape,List.length_eq_zero_iff] at quiet
    · intro none
      rw [none] at denied
      exact absurd denied (by decide)

private theorem nothing_answered (first : RpcMessage) (quiet : requests [first] = []) :
    Answers .verbatim (fun _ => none) [first] ⟨204,[],false,[]⟩ [] :=
  ⟨rfl,⟨[],List.Perm.refl _,by rw [quiet]; exact List.Forall₂.nil⟩,fun filled => absurd rfl filled,
    fun _ => ⟨rfl,rfl⟩⟩

/-- A batch of two calls, of which a viewer may make the first, and a notification. -/
def callsBody : Bytes :=
  lit "[\x7b\"jsonrpc\":\"2.0\",\"method\":\"tools/call\",\"params\":\x7b\"name\":\"get_weather\"\x7d,\"id\":1\x7d," ++
    lit "\x7b\"jsonrpc\":\"2.0\",\"method\":\"tools/call\",\"params\":\x7b\"name\":\"admin_reset\"\x7d,\"id\":2\x7d," ++
    lit "\x7b\"jsonrpc\":\"2.0\",\"method\":\"ping\"\x7d]"

def callsRequest : Request :=
  ⟨some (lit "Bearer viewer-token-xyz789"),none,[callsBody],by decide +kernel⟩

/-- Downstream answers the first call. -/
def weatherReply : Downstream :=
  ⟨200,lit "application/json",false,
    lit "[\x7b\"jsonrpc\":\"2.0\",\"id\":1,\"result\":\x7b\x7d\x7d]"⟩

def isFirst : Value → Bool
  | .int 1 => true
  | _ => false

private theorem isFirst_iff {id : Value} (first : isFirst id = true) : id = .int 1 := by
  unfold isFirst at first
  split at first
  · rfl
  · cases first

private theorem callsBody_reviewed : (parsePayload Unicode.ascii .verbatim callsBody).toOption.any
    (fun parsed : ParsedPayload => decide (
      (requests (review Unicode.ascii standard Forwarding.viewer parsed.messages).1).length = 1 ∧
      (∀ message ∈ requests (review Unicode.ascii standard Forwarding.viewer parsed.messages).1,
        isFirst message.id = true) ∧
      (review Unicode.ascii standard Forwarding.viewer parsed.messages).2.length = 1 ∧
      ∀ denial ∈ (review Unicode.ascii standard Forwarding.viewer parsed.messages).2,
        (Json.render denial).isSome = true)) =
    true := by decide +kernel

private theorem callsRequest_read :
    resolvePrincipal Unicode.ascii standard.tokens callsRequest.authorization =
      .ok Forwarding.viewer ∧
      readBoundedBody callsRequest standard.maxBodyBytes = some callsBody := by decide +kernel

private theorem callsRequest_understood : ∃ parsed,
    Understood Unicode.ascii .verbatim standard callsRequest Forwarding.viewer parsed ∧
    (∃ message, requests (review Unicode.ascii standard Forwarding.viewer parsed.messages).1 =
      [message] ∧
      message.id = .int 1) ∧
    (review Unicode.ascii standard Forwarding.viewer parsed.messages).2 ≠ [] ∧
    ∀ denial ∈ (review Unicode.ascii standard Forwarding.viewer parsed.messages).2,
      (Json.render denial).isSome = true := by
  have reviewed := callsBody_reviewed
  cases ok : parsePayload Unicode.ascii .verbatim callsBody with
  | error failure =>
    rw [ok] at reviewed
    cases reviewed
  | ok parsed =>
    rw [ok,Except.toOption,Option.any_some,decide_eq_true_eq] at reviewed
    obtain ⟨one,own,denied,rendered⟩ := reviewed
    obtain ⟨message,asks⟩ := List.length_eq_one_iff.mp one
    have id := isFirst_iff (own message (by rw [asks]; exact List.mem_singleton.mpr rfl))
    refine ⟨parsed,⟨callsRequest_read.1,callsBody,callsRequest_read.2,ok⟩,
      ⟨message,asks,id⟩,?_,rendered⟩
    intro none
    rw [none] at denied
    cases denied

private theorem weather_read :
    (objectsIn .verbatim (fun _ => none) weatherReply.contentType weatherReply.content).any
    (fun answers : List Value =>
      decide (answers.length = 1 ∧ ∀ answer ∈ answers, (idOf answer).any isFirst = true ∧
        (Json.render answer).isSome = true)) =
    true := by decide +kernel

/-- The first call is answered by downstream, the second by its denial. -/
theorem delivered_iff_calls :
    ∃ parsed answer, Understood Unicode.ascii .verbatim standard callsRequest
      Forwarding.viewer parsed ∧
    Delivered Unicode.ascii .verbatim standard Forwarding.viewer parsed (fun _ => none) [answer]
      (respond Unicode.ascii .verbatim standard callsRequest (fun _ => .ok weatherReply)) := by
  obtain ⟨answers,read,holds⟩ := (Option.any_eq_true _ _).mp weather_read
  obtain ⟨single,known⟩ := of_decide_eq_true holds
  obtain ⟨answer,rfl⟩ := List.length_eq_one_iff.mp single
  obtain ⟨named,written⟩ := known answer (List.mem_singleton.mpr rfl)
  obtain ⟨own,answerId,first⟩ := (Option.any_eq_true _ _).mp named
  obtain rfl := isFirst_iff first
  obtain ⟨parsed,understood,only,denied,rendered⟩ := callsRequest_understood
  obtain ⟨message,asks,id⟩ := only
  cases forwards : (review Unicode.ascii standard Forwarding.viewer parsed.messages).1 with
  | nil =>
    rw [forwards] at asks
    cases asks
  | cons first rest =>
    rw [forwards] at asks
    have answered : Answers .verbatim (fun _ => none) (first::rest) weatherReply [answer] := by
      refine ⟨read,⟨[answer],List.Perm.refl _,?_⟩,fun _ =>
        ⟨by decide,by decide,by decide,by decide⟩,?_⟩
      · rw [asks]
        exact List.Forall₂.cons (by rw [answersId,id,answerId]) List.Forall₂.nil
      · intro quiet
        rw [asks] at quiet
        cases quiet
    refine ⟨parsed,answer,understood,
      (delivered_iff understood forwards _ _ _ answered _ (fun _ => rfl)).mpr ?_⟩
    rw [Mergeable,if_neg (fun relays => denied relays.1),forwards,asks]
    refine ⟨by decide,List.cons_ne_nil _ _,List.forall_mem_append.mpr ⟨?_,rendered⟩⟩
    rw [List.map_singleton,List.forall_mem_singleton]
    exact written

/-- The denial goes out under the status 204. -/
theorem denial_without_body :
    ¬ ∀ (tables : Unicode.Tables) (format : Json.FloatFormat) (config : Config) (request : Request)
      (principal : Principal) (parsed : ParsedPayload) (first : RpcMessage)
      (rest : List RpcMessage),
      Understood tables format config request principal parsed → parsed.isBatch = true →
      (review tables config principal parsed.messages).1 = first::rest →
      ∀ (events : Bytes → Option (List Value)) (downstream : Downstream) (answers : List Value),
        Answers format events (first::rest) downstream answers →
        ∀ forward : Bytes → Except DownstreamError Downstream, (∀ sent, forward sent =
          .ok downstream) →
          Delivered tables format config principal parsed events answers
            (respond tables format config request forward) := by
  intro delivers
  obtain ⟨parsed,first,understood,batch,forwards,quiet,denied⟩ := mixedRequest_understood
  have mergeable :=
    (delivered_iff understood forwards (fun _ => none) _ _ (nothing_answered first quiet) _
    (fun _ => rfl)).mp (delivers _ _ _ _ _ _ _ _ understood batch forwards (fun _ => none) _ _
      (nothing_answered first quiet) _ (fun _ => rfl))
  rw [Mergeable,if_neg (fun relays => denied relays.1)] at mergeable
  exact absurd mergeable.1 (by decide)

theorem failure_reported_iff_mixed :
    ∃ parsed first, Understood Unicode.ascii .verbatim standard mixedRequest
      Forwarding.viewer parsed ∧
    (FailureReported Unicode.ascii .verbatim standard Forwarding.viewer parsed .timeout
        (respond Unicode.ascii .verbatim standard mixedRequest (fun _ => .error .timeout)) ↔
      ∃ message, requests [first] = [message] ∧ (first.isRequest = true ∨ message.id = .null) ∧
        (Json.render (failureOf .timeout message)).isSome = true ∧
        ∀ denial ∈ (review Unicode.ascii standard Forwarding.viewer parsed.messages).2,
          (Json.render denial).isSome = true) := by
  obtain ⟨parsed,first,understood,-,forwards,-⟩ := mixedRequest_understood
  exact ⟨parsed,first,understood,failure_reported_iff understood forwards _ .timeout (fun _ => rfl)⟩

/-- The forwarded notification draws an error object. -/
theorem notification_answered :
    ¬ ∀ (tables : Unicode.Tables) (format : Json.FloatFormat) (config : Config) (request : Request)
      (principal : Principal) (parsed : ParsedPayload) (first : RpcMessage)
      (rest : List RpcMessage),
      Understood tables format config request principal parsed →
      (review tables config principal parsed.messages).1 = first::rest →
      ∀ (forward : Bytes → Except DownstreamError Downstream) (error : DownstreamError),
        (∀ sent, forward sent = .error error) →
        FailureReported tables format config principal parsed error
          (respond tables format config request forward) := by
  intro reports
  obtain ⟨parsed,first,understood,-,forwards,quiet,-⟩ := mixedRequest_understood
  obtain ⟨message,asked,-⟩ :=
    (failure_reported_iff understood forwards _ .timeout (fun _ => rfl)).mp
    (reports _ _ _ _ _ _ _ _ understood forwards (fun _ => .error .timeout) .timeout (fun _ => rfl))
  rw [quiet] at asked
  exact absurd asked nofun

end QuilrMcp.McpGateway.Accounting
