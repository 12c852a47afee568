import QuilrMcp.Library.JsonKeys
import QuilrMcp.Library.Utf8
import QuilrMcp.McpGateway.Accounting

/-! What is left of a tools listing on its way to the client. -/
namespace QuilrMcp.McpGateway.Listing
open Library Library.Text
open Library.Json (Value Distinct lookup)
open Forwarding (Understood Unjoined Contacts Calls allowedMessages evaluate_call)
open Accounting (objectsOf)

/-- The tool entries of a response object, if it has a list of them. -/
def toolsOf : Value → Option (List Value)
  | .dict object =>
    match lookup (lit "result") object with
    | some (.dict result) =>
      match lookup (lit "tools") result with
      | some (.list tools) => some tools
      | _ => none
    | _ => none
  | _ => none

/-- An object with a name that is privileged. -/
def isPrivilegedEntry (tables : Unicode.Tables) : Value → Bool
  | .dict tool =>
    match lookup (lit "name") tool with
    | some (.str name) => isPrivilegedTool tables name
    | _ => false
  | _ => false

/-- No list of tools has a privileged entry. -/
def Hidden (tables : Unicode.Tables) (objects : List Value) : Prop :=
  ∀ object ∈ objects, ∀ tools, toolsOf object = some tools → ∀ tool ∈ tools,
    isPrivilegedEntry tables tool = false

/-- The objects are the same, but the privileged entries are gone from a list of tools. -/
inductive Shows (tables : Unicode.Tables) : Value → Value → Prop
  | same {object : Value} : toolsOf object = none → Shows tables object object
  | listing {front back inner outer : List (Str × Value)} {tools : List Value} :
      Shows tables
        (.dict (front ++ (lit "result",.dict (inner ++ (lit "tools",.list tools)::outer))::back))
        (.dict (front ++ (lit "result",.dict (inner ++
          (lit "tools",
            .list (tools.filter (fun tool => !isPrivilegedEntry tables tool)))::outer))::back))

theorem lookup_behind {key : Str} {value : Value} {front back : List (Str × Value)}
    (fresh : key ∉ back.map Prod.fst) :
    lookup key (front ++ (key,value)::back) = some value := by
  have absent : lookup key back = none := by
    induction back with
    | nil => rfl
    | cons field back ih =>
      obtain ⟨other,fresh⟩ := not_or.mp (mt List.mem_cons.mpr fresh)
      rw [lookup,ih fresh,if_neg (Ne.symm other)]
      rfl
  induction front with
  | nil => rw [List.nil_append,lookup,absent,if_pos rfl]; rfl
  | cons field front ih => rw [List.cons_append,lookup,ih]; rfl

theorem lookup_distinct {key : Str} {value : Value} {fields : List (Str × Value)}
    (distinct : Json.DistinctFields fields) (found : lookup key fields = some value) :
    Distinct value := by
  induction fields with
  | nil => contradiction
  | cons field fields ih =>
    rw [lookup,Option.or_eq_some_iff] at found
    rcases found with later | ⟨-,first⟩
    · exact ih distinct.2 later
    · split_ifs at first
      rw [← Option.some.inj first]
      exact distinct.1

section Entries
variable {tables : Unicode.Tables} {principal : Principal}

theorem filterToolsList_admin (admin : principal.isAdmin = true) (object : Value) :
    filterToolsList tables principal object = object := by
  unfold filterToolsList
  rw [if_pos admin]

theorem filterToolsList_shows (viewer : principal.isAdmin = false) {object : Value}
    (distinct : Distinct object) :
    Shows tables object (filterToolsList tables principal object) := by
  unfold filterToolsList
  rw [if_neg (by simp [viewer])]
  cases object with
  | dict fields =>
    dsimp only
    cases found : lookup (lit "result") fields with
    | none => exact Shows.same (by simp only [toolsOf,found])
    | some value =>
      cases value with
      | dict result =>
        dsimp only
        cases found' : lookup (lit "tools") result with
        | none => exact Shows.same (by simp only [toolsOf,found,found'])
        | some value =>
          cases value with
          | list tools =>
            have within := (lookup_distinct distinct.2 found).1
            obtain ⟨front,back,rfl,set⟩ :=
              Dict.assign_split ((Json.lookup_first distinct.1 _).symm.trans found)
            obtain ⟨inner,outer,rfl,set'⟩ :=
              Dict.assign_split ((Json.lookup_first within _).symm.trans found')
            dsimp only
            rw [set,set']
            have entries := @Shows.listing tables front back inner outer tools
            rwa [List.filter_congr] at entries
            intro tool _
            cases tool with
            | dict tool =>
              cases named : lookup (lit "name") tool with
              | none => simp only [isPrivilegedEntry,named,Bool.not_false]
              | some name => cases name <;> simp only [isPrivilegedEntry,named,Bool.not_false]
            | _ => rfl
          | _ => exact Shows.same (by simp only [toolsOf,found,found'])
      | _ => exact Shows.same (by simp only [toolsOf,found])
  | _ => exact Shows.same rfl

theorem listing_tools {front back inner outer : List (Str × Value)} {tools : List Value}
    (distinct : Distinct
      (.dict (front ++ (lit "result",.dict (inner ++ (lit "tools",.list tools)::outer))::back)))
    (listed : List Value) :
    toolsOf (.dict (front ++
      (lit "result",.dict (inner ++ (lit "tools",.list listed)::outer))::back)) = some listed := by
  have fresh : lit "result" ∉ back.map Prod.fst := by
    have once := distinct.1
    rw [List.map_append,List.map_cons] at once
    exact (List.nodup_cons.mp (List.nodup_append.mp once).2.1).1
  have within := lookup_distinct distinct.2 (@lookup_behind _ _ front _ fresh)
  have fresh' : lit "tools" ∉ outer.map Prod.fst := by
    have once := within.1
    rw [List.map_append,List.map_cons] at once
    exact (List.nodup_cons.mp (List.nodup_append.mp once).2.1).1
  simp only [toolsOf,lookup_behind fresh,lookup_behind fresh']

theorem shows_hidden {object shown : Value} (distinct : Distinct object)
    (shows_ : Shows tables object shown) :
    ∀ tools, toolsOf shown = some tools →
    ∀ tool ∈ tools, isPrivilegedEntry tables tool = false := by
  cases shows_ with
  | same none =>
    intro tools found
    rw [none] at found
    contradiction
  | listing =>
    intro shown found tool member
    rw [listing_tools distinct] at found
    cases found
    simpa using (List.mem_filter.mp member).2

/-- What can be written can be written without some of the tools. -/
theorem shows_renders {object shown : Value} (shows_ : Shows tables object shown)
    (known : (Json.render object).isSome = true) :
    (Json.render shown).isSome = true := by
  cases shows_ with
  | same none => exact known
  | @listing front back inner outer tools =>
    simp only [Json.render_dict,Json.render_list,List.forall_mem_append,
      List.forall_mem_cons] at known ⊢
    obtain ⟨before,⟨key,within,⟨key',entries⟩,beyond⟩,behind⟩ := known
    exact ⟨before,
      ⟨key,within,⟨key',fun tool member => entries tool (List.mem_of_mem_filter member)⟩,beyond⟩,
      behind⟩

theorem filterToolsList_renders {object : Value} (distinct : Distinct object)
    (known : (Json.render object).isSome = true) :
    (Json.render (filterToolsList tables principal object)).isSome = true := by
  cases viewer : principal.isAdmin with
  | true => rwa [filterToolsList_admin viewer]
  | false => exact shows_renders (filterToolsList_shows viewer distinct) known

end Entries

/-- The response objects of a body that is one or a batch of them. -/
def responses : Value → List Value
  | .list items => items
  | item => [item]

/-- The objects in the data lines of an event stream. -/
def eventsIn (format : Json.FloatFormat) (content : Bytes) : Option (List Value) :=
  some ((Unicode.split 10 (Utf8.decodeReplace content)).filterMap (fun line =>
    if (lit "data: ").isPrefixOf line then
      (Json.loads format (ε := Unit) Json.lastPairs (line.drop 6)).toOption else none))

/-- What the client finds in the body of the reply. -/
def bodyObjects (format : Json.FloatFormat) (reply : ClientReply) : Option (List Value) :=
  objectsOf format (eventsIn format) reply

/-- No privileged entry is in the body; and if the parts can be written, the body is that of downstream but for these
entries, with the denials behind it, under downstream's status. -/
structure Filtered (tables : Unicode.Tables) (format : Json.FloatFormat) (denials : List Value)
    (downstream : Downstream) (reply : ClientReply) : Prop where
  hidden : ∀ objects, bodyObjects format reply = some objects → Hidden tables objects
  kept : ∀ payload, loadContent format downstream.content = some payload →
    (∀ object ∈ responses payload ++ denials, (Json.render object).isSome = true) →
    ∃ body shown, reply = .rendered downstream.status body ∧ responses body = shown ++ denials ∧
      List.Forall₂ (Shows tables) (responses payload) shown ∧
      (denials = [] → ((∃ items, body = .list items) ↔ ∃ items, payload = .list items))

section Replies
variable {tables : Unicode.Tables} {format : Json.FloatFormat} {config : Config}
    {principal : Principal}

private theorem bodyObjects_response {payload : Value} {status : Nat} {objects : List Value}
    (held : bodyObjects format (jsonRpcResponse payload status) = some objects) :
    objects = responses payload := by
  rw [bodyObjects,jsonRpcResponse] at held
  split_ifs at held
  · cases payload <;> exact (Option.some.inj held).symm
  · contradiction

theorem loadContent_distinct {content : Bytes} {payload : Value}
    (octets : ∀ byte ∈ content, byte < 0x100) (loaded : loadContent format content = some payload) :
    Distinct payload := by
  rw [loadContent] at loaded
  split at loaded
  · contradiction
  · rename_i text decoded
    cases read : Json.loads format (ε := Unit) (fun pairs => .ok (Dict.ofPairs pairs)) text with
    | error error =>
      rw [read] at loaded
      contradiction
    | ok value =>
      rw [read] at loaded
      cases loaded
      exact Json.loads_lastPairs_distinct format (Encoding.decodeDetected_range content octets
        text decoded) read

private theorem errorResponse_tools (code : Int) (message : Str) (id : Value)
    (data : Option Value) :
    toolsOf (errorResponse code message id data) = none := by
  have absent : lookup (lit "result") [(lit "jsonrpc",.str (lit "2.0")),(lit "id",id),
      (lit "error",.dict ([(lit "code",.int code),(lit "message",.str message)] ++
        (data.map (fun data => (lit "data",data))).toList))] = none := by rfl
  rw [errorResponse,toolsOf,absent]

private theorem responses_distinct {payload : Value} (distinct : Distinct payload) :
    ∀ object ∈ responses payload, Distinct object := by
  cases payload with
  | list items => exact (Json.distinctItems_iff items).mp distinct
  | _ => exact List.forall_mem_singleton.mpr distinct

private theorem hidden_of_none {objects : List Value}
    (none_ : ∀ object ∈ objects, toolsOf object = none) :
    Hidden tables objects := by
  intro object member tools found
  rw [none_ object member] at found
  contradiction

private theorem hidden_append {front back : List Value} (first : Hidden tables front)
    (second : Hidden tables back) :
    Hidden tables (front ++ back) := by
  intro object member
  rcases List.mem_append.mp member with before | behind
  · exact first object before
  · exact second object behind

private theorem merged_item {item denial : Value} {denials : List Value}
    (single : ∀ items, item ≠ .list items) :
    merged (denial::denials) item = .list (item::denial::denials) := by
  cases item with
  | list items => exact absurd rfl (single items)
  | _ => rfl

private theorem render_responses (body : Value) :
    (Json.render body).isSome = true ↔
    ∀ object ∈ responses body, (Json.render object).isSome = true := by
  cases body with
  | list items => exact Json.render_list items
  | _ => simp [responses]

private theorem responses_merged (on : config.filterToolsList = true) (denials : List Value)
    (payload : Value) :
    responses (merged denials (filtered tables config principal payload)) =
      (responses payload).map (filterToolsList tables principal) ++ denials ∧
    (denials = [] → ((∃ items, merged denials (filtered tables config principal payload) =
      .list items) ↔
      ∃ items, payload = .list items)) := by
  have shows_ : Accounting.shown tables config principal = filterToolsList tables principal := by
    ext1 answer
    rw [Accounting.shown,if_pos on]
  by_cases batch : ∃ items, payload = .list items
  · obtain ⟨items,rfl⟩ := batch
    rw [Accounting.filtered_list,Accounting.merged_list,shows_]
    exact ⟨rfl,fun _ => iff_of_true ⟨_,rfl⟩ ⟨_,rfl⟩⟩
  · have single : ∀ items, payload ≠ .list items := fun items same => batch ⟨items,same⟩
    have single' := @Accounting.filterToolsList_list tables principal payload single
    rw [Accounting.filtered_item payload single,shows_]
    have one {value : Value} (alone : ∀ items, value ≠ .list items) : responses value =
      [value] := by
      cases value with
      | list items => exact absurd rfl (alone items)
      | _ => rfl
    rw [one single]
    cases denials with
    | nil =>
      have plain : merged [] (filterToolsList tables principal payload) =
        filterToolsList tables principal payload := rfl
      rw [plain,one single']
      refine ⟨rfl,fun _ => iff_of_false ?_ batch⟩
      rintro ⟨items,same⟩
      exact single' items same
    | cons denial denials =>
      refine ⟨?_,fun none => absurd none (List.cons_ne_nil _ _)⟩
      rw [merged_item single']
      rfl

private theorem shows_each (viewer : principal.isAdmin = false) {objects : List Value}
    (distinct : ∀ object ∈ objects, Distinct object) :
    List.Forall₂ (Shows tables) objects (objects.map (filterToolsList tables principal)) := by
  rw [List.forall₂_map_right_iff,List.forall₂_same]
  exact fun object member => filterToolsList_shows viewer (distinct object member)

private theorem shown_hidden (viewer : principal.isAdmin = false) {objects : List Value}
    (distinct : ∀ object ∈ objects, Distinct object) :
    Hidden tables (objects.map (filterToolsList tables principal)) := by
  intro shown member
  obtain ⟨object,inside,rfl⟩ := List.mem_map.mp member
  exact shows_hidden (distinct object inside) (filterToolsList_shows viewer
    (distinct object inside))

variable {request : Request} {parsed : ParsedPayload} {first : RpcMessage} {rest : List RpcMessage}

/-- A JSON reply to a caller who is not admin is filtered. -/
theorem listing_filtered (on : config.filterToolsList = true) (viewer : principal.isAdmin = false)
    (understood : Understood tables format config request principal parsed)
    (forwards : (review tables config principal parsed.messages).1 = first::rest)
    (downstream : Downstream) (octets : ∀ byte ∈ downstream.content, byte < 0x100)
    (json : isJson downstream.contentType = true)
    (forward : Bytes → Except DownstreamError Downstream)
    (delivered : ∀ sent, forward sent = .ok downstream) :
    Filtered tables format (review tables config principal parsed.messages).2 downstream
      (respond tables format config request forward) := by
  obtain ⟨sent,contacted⟩ := Accounting.handleMcpPost_contact understood forwards
  have replies : respond tables format config request forward =
    buildClientResponse tables format config downstream
      (review tables config principal parsed.messages).2 principal := by
    simp only [respond,contacted,delivered,understood.1]
  have denied : ∀ denial ∈ (review tables config principal parsed.messages).2,
    toolsOf denial = none := by
    intro denial member
    obtain ⟨code,message,id,data,-,rfl⟩ := Accounting.denials_coded _ _ member
    exact errorResponse_tools code message id data
  rw [replies,buildClientResponse,on,json,if_neg (by simp),if_neg (by simp)]
  cases loaded : loadContent format downstream.content with
  | none =>
    constructor
    · intro objects held
      rw [bodyObjects_response held]
      apply hidden_of_none
      exact List.forall_mem_append.mpr ⟨denied,List.forall_mem_singleton.mpr
        (errorResponse_tools _ _ _ _)⟩
    · intro payload found
      rw [loaded] at found
      contradiction
  | some payload =>
    have distinct := responses_distinct (loadContent_distinct octets loaded)
    obtain ⟨whole,shape⟩ :=
      @responses_merged tables config principal on
        (review tables config principal parsed.messages).2 payload
    constructor
    · intro objects held
      rw [bodyObjects_response held,whole]
      exact hidden_append (shown_hidden viewer distinct) (hidden_of_none denied)
    · intro other found known
      obtain rfl := Option.some.inj (loaded.symm.trans found)
      refine ⟨_,_,?_,whole,shows_each viewer distinct,shape⟩
      obtain ⟨written,denials⟩ := List.forall_mem_append.mp known
      apply if_pos
      rw [render_responses,whole,List.forall_mem_append]
      refine ⟨List.forall_mem_map.mpr ?_,denials⟩
      intro object member
      exact shows_renders (filterToolsList_shows viewer (distinct object member))
        (written object member)

end Replies

def listBody : Bytes := lit "\x7b\"jsonrpc\":\"2.0\",\"method\":\"tools/list\",\"id\":1\x7d"

def listRequest : Request :=
  ⟨some (lit "Bearer viewer-token-xyz789"),none,[listBody],by decide +kernel⟩

def filtering : Config := ⟨none,1048576,true,true⟩

def toolsText : Str :=
  lit "\x7b\"jsonrpc\":\"2.0\",\"id\":1,\"result\":\x7b\"tools\":[\x7b\"name\":\"admin_reset_key\"\x7d,\x7b\"name\":\"get_ticket\"\x7d]\x7d\x7d"

def jsonReply : Downstream := ⟨200,lit "application/json",false,toolsText⟩

def eventReply : Downstream :=
  ⟨200,lit "text/event-stream",false,lit "data: " ++ toolsText ++ [10,10]⟩

private theorem listBody_reviewed : (match parsePayload Unicode.ascii .verbatim listBody with
      | .ok parsed =>
        decide ((review Unicode.ascii filtering Forwarding.viewer parsed.messages).1 ≠ [])
      | .error _ => false) = true := by decide +kernel

private theorem listRequest_read :
    resolvePrincipal Unicode.ascii filtering.tokens listRequest.authorization =
      .ok Forwarding.viewer ∧
      readBoundedBody listRequest filtering.maxBodyBytes = some listBody := by decide +kernel

private theorem listRequest_understood : ∃ parsed first rest,
    Understood Unicode.ascii .verbatim filtering listRequest Forwarding.viewer parsed ∧
      (review Unicode.ascii filtering Forwarding.viewer parsed.messages).1 = first::rest := by
  have reviewed := listBody_reviewed
  cases ok : parsePayload Unicode.ascii .verbatim listBody with
  | error failure =>
    rw [ok] at reviewed
    cases reviewed
  | ok parsed =>
    rw [ok] at reviewed
    obtain ⟨first,rest,forwards⟩ := List.exists_cons_of_ne_nil (of_decide_eq_true reviewed)
    exact ⟨parsed,first,rest,⟨listRequest_read.1,listBody,listRequest_read.2,ok⟩,forwards⟩

theorem listing_filtered_tools :
    ∃ parsed, Understood Unicode.ascii .verbatim filtering listRequest Forwarding.viewer parsed ∧
    Filtered Unicode.ascii .verbatim (review Unicode.ascii filtering Forwarding.viewer
      parsed.messages).2 jsonReply
      (respond Unicode.ascii .verbatim filtering listRequest (fun _ => .ok jsonReply)) := by
  obtain ⟨parsed,first,rest,understood,forwards⟩ := listRequest_understood
  exact ⟨parsed,understood,listing_filtered rfl (by decide) understood forwards jsonReply
    (by decide +kernel) (by decide) _
    (fun _ => rfl)⟩

private theorem eventReply_privileged :
    (match bodyObjects .verbatim (respond Unicode.ascii .verbatim filtering listRequest (fun _ =>
      .ok eventReply)) with
      | some objects =>
        objects.any (fun object => ((toolsOf object).getD []).any (isPrivilegedEntry Unicode.ascii))
      | none => false) = true := by decide +kernel

/-- An event stream is passed on with the privileged tools in it. -/
theorem event_stream_unfiltered :
    ¬ ∀ (tables : Unicode.Tables) (format : Json.FloatFormat) (config : Config) (request : Request) (principal : Principal)
      (parsed : ParsedPayload), config.filterToolsList = true → principal.isAdmin = false →
      Understood tables format config request principal parsed → ∀ (downstream : Downstream),
        (∀ byte ∈ downstream.content, byte < 0x100) →
        ∀ forward : Bytes → Except DownstreamError Downstream, (∀ sent, forward sent =
          .ok downstream) →
          ∀ objects, bodyObjects format (respond tables format config request forward) =
            some objects → Hidden tables objects := by
  intro hides
  obtain ⟨parsed,-,-,understood,-⟩ := listRequest_understood
  have hidden := hides Unicode.ascii .verbatim filtering listRequest Forwarding.viewer parsed rfl
    (by decide) understood
    eventReply (by decide +kernel) (fun _ => .ok eventReply) (fun _ => rfl)
  have privileged := eventReply_privileged
  generalize bodyObjects .verbatim (respond Unicode.ascii .verbatim filtering listRequest (fun _ =>
    .ok eventReply)) = found
    at hidden privileged
  cases found with
  | none => contradiction
  | some objects =>
    obtain ⟨object,member,listed⟩ := List.any_eq_true.mp privileged
    obtain ⟨tool,inside,entry⟩ := List.any_eq_true.mp listed
    cases tools : toolsOf object with
    | none => simp [tools] at inside
    | some entries =>
      rw [tools] at inside
      rw [hidden objects rfl object member entries tools tool inside] at entry
      contradiction

/-- The name of a tool entry. -/
def entryName : Value → Option Str
  | .dict tool =>
    match lookup (lit "name") tool with
    | some (.str name) => some name
    | _ => none
  | _ => none

section Calling
variable (tables : Unicode.Tables) (format : Json.FloatFormat) (config : Config)
    (principal : Principal)

/-- The message is among those that what goes downstream is read as. -/
def Forwarded (request : Request) (message : RpcMessage) : Prop :=
  ∃ sent forwarded, Contacts tables format config request sent ∧
  parsePayload tables format sent = .ok forwarded ∧
    message ∈ forwarded.messages

/-- The entries that are shown are the listed ones that name no tool or one that the caller may call: in every request of
the caller's that is not changed when it is encoded again, the call goes downstream just if the entry is shown. -/
def Offers (tools shown : List Value) : Prop :=
  ∃ keep : Value → Bool, shown = tools.filter keep ∧ ∀ tool ∈ tools,
    (entryName tool = none → keep tool = true) ∧
    ∀ name, entryName tool = some name → ∀ request parsed,
      Understood tables format config request principal parsed →
      Unjoined tables format config request →
      ∀ message ∈ parsed.messages, Calls message name →
      (keep tool = true ↔ Forwarded tables format config request message)

/-- A response object as it was, unless it lists tools. -/
def Agrees (object shown : Value) : Prop :=
  (toolsOf object = none ∧ shown = object) ∨
    ∃ listed offered, toolsOf object = some listed ∧ toolsOf shown = some offered ∧
      Offers tables format config principal listed offered

variable {tables format config principal}

theorem isPrivilegedEntry_name (tool : Value) :
    isPrivilegedEntry tables tool = (entryName tool).any (isPrivilegedTool tables) := by
  cases tool with
  | dict tool =>
    rw [isPrivilegedEntry,entryName]
    cases lookup (lit "name") tool with
    | none => rfl
    | some name => cases name <;> rfl
  | _ => rfl

theorem forwarded_iff {request : Request} {parsed : ParsedPayload}
    (understood : Understood tables format config request principal parsed)
    (unjoined : Unjoined tables format config request) {message : RpcMessage}
    (member : message ∈ parsed.messages) :
    Forwarded tables format config request message ↔
    evaluate tables principal message config.enforceMethodAllowlist = none := by
  have read {sent : Bytes} (contacts : Contacts tables format config request sent) :
      parsePayload tables format sent = .ok ⟨allowedMessages tables config principal parsed,
        parsed.isBatch⟩ := by
    obtain ⟨_,_,again,ok⟩ := Forwarding.contacts_parsed tables format config unjoined contacts
    obtain ⟨rfl,rfl⟩ :=
      Forwarding.understood_unique tables format config request _ _ _ _ understood again
    exact ok
  constructor
  · rintro ⟨sent,forwarded,contacts,ok,inside⟩
    obtain rfl := Except.ok.inj ((read contacts).symm.trans ok)
    exact Option.isNone_iff_eq_none.mp (List.mem_filter.mp inside).2
  · intro passes
    have inside : message ∈ allowedMessages tables config principal parsed :=
      List.mem_filter.mpr ⟨member,Option.isNone_iff_eq_none.mpr passes⟩
    obtain ⟨sent,contacts⟩ := Forwarding.contacts_allowed tables format config understood
      (List.ne_nil_of_mem inside)
    exact ⟨sent,_,contacts,read contacts,inside⟩

/-- The filter of the listing and the guard of the calls decide alike. -/
theorem offers_filter (tools : List Value) : Offers tables format config principal tools
    (tools.filter (fun tool => principal.isAdmin || !isPrivilegedEntry tables tool)) := by
  refine ⟨_,rfl,fun tool _ => ⟨fun nameless => ?_,?_⟩⟩
  · rw [isPrivilegedEntry_name,nameless]
    simp
  · intro name named request parsed understood unjoined message member calls
    rw [forwarded_iff understood unjoined member,evaluate_call tables principal calls,
      isPrivilegedEntry_name,named]
    rfl

theorem filterToolsList_agrees {object : Value} (distinct : Distinct object) :
    Agrees tables format config principal object (filterToolsList tables principal object) := by
  cases viewer : principal.isAdmin with
  | true =>
    rw [filterToolsList_admin viewer]
    cases listed : toolsOf object with
    | none => exact Or.inl ⟨listed,rfl⟩
    | some tools =>
      have offers := @offers_filter tables format config principal tools
      simp only [viewer,Bool.true_or,List.filter_true] at offers
      exact Or.inr ⟨tools,tools,listed,listed,offers⟩
  | false =>
    have shows_ := @filterToolsList_shows tables principal viewer object distinct
    generalize filterToolsList tables principal object = shown at shows_
    cases shows_ with
    | same none => exact Or.inl ⟨none,rfl⟩
    | @listing front back inner outer tools =>
      have offers := @offers_filter tables format config principal tools
      simp only [viewer,Bool.false_or] at offers
      exact Or.inr ⟨tools,_,listing_tools distinct _,listing_tools distinct _,offers⟩

variable {request : Request} {parsed : ParsedPayload} {first : RpcMessage} {rest : List RpcMessage}

/-- What a listing shows to a caller is what the caller may call, whatever request the call is in. -/
theorem shown_callable (on : config.filterToolsList = true)
    (understood : Understood tables format config request principal parsed)
    (forwards : (review tables config principal parsed.messages).1 = first::rest)
    (downstream : Downstream) (octets : ∀ byte ∈ downstream.content, byte < 0x100)
    (json : isJson downstream.contentType = true)
    (forward : Bytes → Except DownstreamError Downstream)
    (delivered : ∀ sent, forward sent = .ok downstream) {payload : Value}
    (loaded : loadContent format downstream.content = some payload)
    (known : ∀ object ∈ responses payload ++ (review tables config principal parsed.messages).2,
      (Json.render object).isSome = true) :
    ∃ body shown, respond tables format config request forward = .rendered downstream.status body ∧
      responses body = shown ++ (review tables config principal parsed.messages).2 ∧
      List.Forall₂ (Agrees tables format config principal) (responses payload) shown := by
  obtain ⟨sent,contacted⟩ := Accounting.handleMcpPost_contact understood forwards
  have replies : respond tables format config request forward =
    buildClientResponse tables format config downstream
      (review tables config principal parsed.messages).2 principal := by
    simp only [respond,contacted,delivered,understood.1]
  have distinct := responses_distinct (loadContent_distinct octets loaded)
  have whole :=
    (@responses_merged tables config principal on
      (review tables config principal parsed.messages).2 payload).1
  refine ⟨_,_,?_,whole,?_⟩
  · rw [replies,buildClientResponse,on,json,if_neg (by simp),if_neg (by simp)]
    simp only [loaded]
    apply if_pos
    rw [render_responses,whole,List.forall_mem_append]
    obtain ⟨written,denials⟩ := List.forall_mem_append.mp known
    refine ⟨List.forall_mem_map.mpr ?_,denials⟩
    intro object member
    exact filterToolsList_renders (distinct object member) (written object member)
  · rw [List.forall₂_map_right_iff,List.forall₂_same]
    exact fun object member => filterToolsList_agrees (distinct object member)

private theorem listBody_unrefused :
    (parsePayload Unicode.ascii .verbatim listBody).toOption.any (fun parsed =>
      (review Unicode.ascii filtering Forwarding.viewer parsed.messages).2.isEmpty) =
        true := by decide +kernel

private theorem jsonReply_written : (loadContent .verbatim jsonReply.content).any (fun payload =>
      (responses payload).all (fun object => (Json.render object).isSome)) =
      true := by decide +kernel

theorem shown_callable_viewer :
    ∃ payload body shown, loadContent .verbatim jsonReply.content = some payload ∧
    respond Unicode.ascii .verbatim filtering listRequest (fun _ => .ok jsonReply) =
      .rendered 200 body ∧ responses body = shown ∧
    List.Forall₂ (Agrees Unicode.ascii .verbatim filtering Forwarding.viewer)
      (responses payload) shown := by
  obtain ⟨parsed,first,rest,understood,forwards⟩ := listRequest_understood
  obtain ⟨payload,loaded,written⟩ := (Option.any_eq_true _ _).mp jsonReply_written
  have none_ : (review Unicode.ascii filtering Forwarding.viewer parsed.messages).2 = [] := by
    obtain ⟨body,read,ok⟩ := understood.2
    have same := Option.some.inj (listRequest_read.2.symm.trans read)
    have unrefused := listBody_unrefused
    rw [same,ok] at unrefused
    exact List.isEmpty_iff.mp unrefused
  have known :
    ∀ object ∈ responses payload ++ (review Unicode.ascii filtering Forwarding.viewer parsed.messages).2,
      (Json.render object).isSome = true := by
    rw [none_,List.append_nil]
    exact List.all_eq_true.mp written
  obtain ⟨body,shown,reply,whole,agree⟩ :=
    shown_callable rfl understood forwards jsonReply (by decide +kernel) (by decide) _
    (fun _ => rfl) loaded known
  rw [none_,List.append_nil] at whole
  exact ⟨payload,body,shown,loaded,reply,whole,agree⟩

end Calling

end QuilrMcp.McpGateway.Listing
