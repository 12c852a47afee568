import QuilrMcp.Library.JsonLines
import QuilrMcp.McpGateway.Accounting
import QuilrMcp.McpGateway.Refusal
import Mathlib.Data.List.Sort

/-! The audit log has one line of JSON for each decision. What it says was allowed is what is sent downstream. -/
namespace QuilrMcp.McpGateway.Audit
open Library Library.Text
open Library.Json (Value lastWins fileLines document)
open Accounting (standard callsBody callsRequest)

/-- The fields of a record, with `none` for `None`. -/
abbrev Fields := List (Str × Option Str)

def field (text : Option Str) : Value := text.elim .null .str

def sortKeys (fields : Fields) : Fields :=
  fields.insertionSort (fun entry other => entry.1 ≤ other.1)

def auditRecord (fields : Fields) : Str :=
  Json.dumps ⟨false,true⟩ (.dict ((sortKeys fields).map (fun entry => (entry.1,field entry.2))))

/-- `_log_decision` -/
def logDecision (principal : Principal) (message : RpcMessage) (denial : Option Denial) : Fields :=
  [(lit "decision",some (if denial.isSome then lit "DENY" else lit "ALLOW")),
    (lit "subject",some principal.subject),
    (lit "role",some principal.role),(lit "method",some message.method),
      (lit "tool",message.toolName),
    (lit "reason",denial.map Denial.reason)]

/-- The methods that have no JSON-RPC body. The framework adds HEAD to GET. -/
inductive Transport
  | get
  | head
  | delete

def Transport.text : Transport → Str
  | .get => lit "GET"
  | .head => lit "HEAD"
  | .delete => lit "DELETE"

inductive Arrival
  | post (request : Request)
  | passthrough (method : Transport) (authorization : Option Str)

/-- The record of a request that is relayed as it stands. -/
def logPassthrough (principal : Principal) (method : Transport) : Fields :=
  [(lit "decision",some (lit "ALLOW")),(lit "subject",some principal.subject),
    (lit "role",some principal.role),
    (lit "method",some method.text),(lit "reason",some (lit "transport_passthrough"))]

section Trail
variable (tables : Unicode.Tables) (format : Json.FloatFormat) (config : Config)

/-- What `handle_mcp_post` and `handle_mcp_passthrough` write to the log. -/
def trail : Arrival → List Fields
  | .post request =>
    match resolvePrincipal tables config.tokens request.authorization with
    | .error (.authError detail) =>
      [[(lit "decision",some (lit "DENY")),(lit "reason",some (lit "authentication_failed")),
        (lit "detail",some detail)]]
    | .error .unicodeEncodeError => []
    | .ok principal =>
      match readBoundedBody request config.maxBodyBytes with
      | none => [[(lit "decision",some (lit "DENY")),(lit "subject",some principal.subject),
          (lit "role",some principal.role),(lit "reason",some (lit "body_too_large"))]]
      | some body =>
        match parsePayload tables format body with
        | .error _ => []
        | .ok parsed => parsed.messages.map (fun message =>
            logDecision principal message
              (evaluate tables principal message config.enforceMethodAllowlist))
  | .passthrough method authorization =>
    match resolvePrincipal tables config.tokens authorization with
    | .error _ => []
    | .ok principal => [logPassthrough principal method]

/-- What goes downstream: a body, or a request without one. -/
inductive Sent
  | posted (principal : Principal) (body : Bytes)
  | relayed (principal : Principal) (method : Transport)

def sent : Arrival → List Sent
  | .post request =>
    match handleMcpPost tables format config request,
      resolvePrincipal tables config.tokens request.authorization with
    | .contact body _ _ _, .ok principal => [.posted principal body]
    | _, _ => []
  | .passthrough method authorization =>
    match resolvePrincipal tables config.tokens authorization with
    | .error _ => []
    | .ok principal => [.relayed principal method]

/-- The records of the messages that a body is read as, or of the request without one. -/
def Sent.records : Sent → List Fields
  | .posted principal body =>
    match parsePayload tables format body with
    | .error _ => []
    | .ok parsed => parsed.messages.map (fun message => logDecision principal message none)
  | .relayed principal method => [logPassthrough principal method]

end Trail

/-- What stands before the record on its line: the time, the level and the name of the logger. -/
structure Stamp where
  text : Str
  visible : Json.Visible text
  unbraced : 123 ∉ text

def written (entries : List (Stamp × Fields)) : Str :=
  (entries.map (fun entry => entry.1.text ++ auditRecord entry.2)).flatMap document

/-- A reader of the log takes each line from its first brace. -/
def readLine (format : Json.FloatFormat) (line : Str) : Except (Json.Error Empty) Value :=
  Json.loads format lastWins (line.dropWhile (· ≠ 123))

def readLog (format : Json.FloatFormat) (text : Str) : List (Except (Json.Error Empty) Value) :=
  (fileLines text).map (readLine format)

/-- What a reader finds in a record: its fields by their names, surrogate pairs in a text joined. -/
def told (fields : Fields) : Value :=
  .dict ((sortKeys fields).map (fun entry => (entry.1,field (entry.2.map joinSurrogates))))

def allows : Except (Json.Error Empty) Value → Bool
  | .ok (.dict fields) =>
    match fields.lookup (lit "decision") with
    | some (.str decision) => decision = lit "ALLOW"
    | _ => false
  | _ => false

structure Printable (fields : Fields) : Prop where
  distinct : (fields.map Prod.fst).Nodup
  keys : ∀ key ∈ fields.map Prod.fst, PairFree key ∧ ∀ code ∈ key, code < 0x110000
  texts : ∀ entry ∈ fields, ∀ text, entry.2 = some text → ∀ code ∈ text, code < 0x110000

theorem sortKeys_perm (fields : Fields) : (sortKeys fields).Perm fields :=
  List.perm_insertionSort _ fields

theorem Printable.sorted {fields : Fields} (printable : Printable fields) :
    Printable (sortKeys fields) where
  distinct := ((sortKeys_perm fields).map Prod.fst).nodup_iff.mpr printable.distinct
  keys key listed := printable.keys key (((sortKeys_perm fields).map Prod.fst).mem_iff.mp listed)
  texts entry member := printable.texts entry ((sortKeys_perm fields).mem_iff.mp member)

theorem Printable.sound {fields : Fields} (printable : Printable fields)
    (format : Json.FloatFormat) :
    Json.Sound format (.dict (fields.map (fun entry => (entry.1,field entry.2)))) := by
  obtain ⟨-,keys,texts⟩ := printable
  induction fields with
  | nil => trivial
  | cons entry fields ih =>
    obtain ⟨first,later⟩ := List.forall_mem_cons.mp texts
    rw [List.map_cons,List.forall_mem_cons] at keys
    refine ⟨keys.1.2,?_,ih keys.2 later⟩
    cases given : entry.2 with
    | none => trivial
    | some text => exact first text given

theorem rebuildFields_joined {fields : Fields} (keys : ∀ key ∈ fields.map Prod.fst, PairFree key ∧
    ∀ code ∈ key, code < 0x110000) :
    Json.rebuildFields lastWins true (fields.map (fun entry => (entry.1,field entry.2))) =
      .ok (fields.map (fun entry => (entry.1,field (entry.2.map joinSurrogates)))) := by
  induction fields with
  | nil => rfl
  | cons entry fields ih =>
    rw [List.map_cons,List.forall_mem_cons] at keys
    obtain ⟨key,text⟩ := entry
    have joined : joinSurrogates key = key := joinSurrogates_of_pairFree key keys.1.1
    rw [List.map_cons,Json.rebuildFields,ih keys.2]
    cases text <;> simp [field,Json.rebuild,Json.readBack,joined,Except.map]

theorem Printable.read {fields : Fields} (printable : Printable fields) (format : Json.FloatFormat)
    (stamp : Stamp) :
    readLine format (document (stamp.text ++ auditRecord fields)) = .ok (told fields) := by
  have started : ∃ rest, document (auditRecord fields) = 123::rest := ⟨_,rfl⟩
  have line : (document (stamp.text ++ auditRecord fields)).dropWhile (· ≠ 123) =
    document (auditRecord fields) := by
    obtain ⟨rest,shape⟩ := started
    rw [document,List.append_assoc,← document,shape,List.dropWhile_append_of_pos]
    · exact List.dropWhile_cons_of_neg (by simp)
    · intro code member
      simp only [decide_eq_true_eq]
      rintro rfl
      exact stamp.unbraced member
  have sorted := printable.sorted
  have distinct :
    (((sortKeys fields).map (fun entry => (entry.1,field (entry.2.map joinSurrogates)))).map
      Prod.fst).Nodup := by
    rw [List.map_map]
    exact sorted.distinct
  rw [readLine,line,auditRecord,Json.loads_line lastWins ⟨false,true⟩ (sorted.sound format),
    Json.rebuild,rebuildFields_joined sorted.keys]
  simp only [Dict.ofPairs_distinct _ distinct]
  rfl

/-- Every record is one line, and reads back as itself. -/
theorem readLog_written (format : Json.FloatFormat) {entries : List (Stamp × Fields)}
    (printable : ∀ entry ∈ entries, Printable entry.2) :
    readLog format (written entries) = (entries.map Prod.snd).map (fun fields =>
      .ok (told fields)) := by
  have visible : ∀ text ∈ entries.map (fun entry => entry.1.text ++ auditRecord entry.2),
    Json.Visible text := by
    intro text listed
    obtain ⟨entry,member,rfl⟩ := List.mem_map.mp listed
    have sound := (printable entry member).sorted.sound format
    intro code inside
    rcases List.mem_append.mp inside with stamped | recorded
    · exact entry.1.visible code stamped
    · exact Json.dumps_visible format ⟨false,true⟩ _ sound code recorded
  rw [readLog,written,Json.fileLines_documents visible,List.map_map,List.map_map,List.map_map]
  exact List.map_congr_left (fun entry member => (printable entry member).read format entry.1)

theorem partition_part {separator code : Nat} {text : Str}
    (member : code ∈ (Unicode.partition separator text).1 ∨
      code ∈ (Unicode.partition separator text).2) : code ∈ text := by
  rw [Unicode.partition] at member
  rcases member with front | back
  · exact (List.takeWhile_sublist _).subset front
  · exact (List.dropWhile_sublist _).subset (List.mem_of_mem_tail back)

section Told
variable {tables : Unicode.Tables} {format : Json.FloatFormat} {config : Config}

/-- The code points of a configured principal stand in the text of the configuration. -/
theorem tokenEntry_range {entry token : Str} {principal : Principal}
    (read : tokenEntry tables entry = some (token,principal)) :
    ∀ code ∈ principal.subject ++ principal.role, code ∈ entry := by
  simp only [tokenEntry] at read
  split_ifs at read
  simp only [Option.some.injEq,Prod.mk.injEq] at read
  obtain ⟨-,rfl⟩ := read
  intro code member
  have rest := partition_part (List.mem_append.mp member)
  exact Unicode.mem_strip tables (partition_part (Or.inr rest))

variable (configured : ∀ text, config.tokens = some text → ∀ code ∈ text, code < 0x110000)
include configured

theorem resolvePrincipal_range {header : Option Str} {principal : Principal}
    (resolved : resolvePrincipal tables config.tokens header = .ok principal) :
    ∀ code ∈ principal.subject ++ principal.role, code < 0x110000 := by
  have demo : ∀ entry ∈ defaultTokens, ∀ code ∈ entry.2.subject ++ entry.2.role,
    code < 0x110000 := by decide
  obtain ⟨token,-,listed⟩ := resolvePrincipal_owner resolved
  unfold tokenTable at listed
  split at listed
  · exact demo _ listed
  · exact demo _ listed
  · rename_i text _ given
    obtain ⟨entry,part,read⟩ := List.mem_filterMap.mp listed
    exact fun code member => configured text given code
      (Unicode.split_part part (tokenEntry_range read code member)).1

omit configured in
/-- The method and the tool of a message are texts of its object. -/
theorem parseOne_texts {item : List (Str × Value)} {message : RpcMessage}
    (parsed : parseOne (.dict item) = .ok message) (sound : Json.Sound format (.dict item)) :
    (∀ code ∈ message.method, code < 0x110000) ∧ ∀ name, message.toolName = some name →
    ∀ code ∈ name, code < 0x110000 := by
  simp only [parseOne] at parsed
  generalize (if validId _ = true then _ else _) = messageId at parsed
  split at parsed
  · cases parsed
  · split at parsed
    · rename_i code method named
      split at parsed
      · cases parsed
      · rename_i params structured
        split at parsed
        · cases parsed
        · cases parsed
          refine ⟨Refusal.lookup_sound sound named,?_⟩
          intro name called
          rw [RpcMessage.toolName] at called
          cases params with
          | none => cases called
          | some params =>
            cases params with
            | list items => cases called
            | dict fields =>
              have given : Json.lookup (lit "params") item = some (.dict fields) := by
                generalize Json.lookup (lit "params") item = value at structured
                cases value with
                | none => cases structured
                | some value => cases value <;> cases structured; rfl
              dsimp only at called
              split at called
              · rename_i other found
                cases called
                exact Refusal.lookup_sound (Refusal.lookup_sound sound given) found
              · cases called
    · cases parsed

omit configured in
theorem parsePayload_texts {body : Bytes} (octets : ∀ byte ∈ body, byte < 0x100)
    {parsed : ParsedPayload} (ok : parsePayload tables format body = .ok parsed)
    {message : RpcMessage} (member : message ∈ parsed.messages) :
    (∀ code ∈ message.method, code < 0x110000) ∧ ∀ name, message.toolName = some name →
    ∀ code ∈ name, code < 0x110000 := by
  obtain ⟨document,loaded,shape⟩ := Forwarding.parsePayload_ok tables format body parsed ok
  obtain ⟨sound,-⟩ := Forwarding.loadDocument_sound tables format body octets document loaded
  obtain ⟨each,alternatives⟩ := Forwarding.parseDocument_cases document parsed shape
  refine @parseOne_texts format _ _ (each message member) ?_
  rcases alternatives with ⟨-,-,rfl⟩ | ⟨-,single,alone,rfl⟩
  · rw [Json.Sound,Json.soundItems_iff] at sound
    exact sound _ (List.mem_map_of_mem member)
  · rw [alone] at member
    exact List.mem_singleton.mp member ▸ sound

omit configured in
theorem printable_of {fields : Fields} (keys : List Str) (named : fields.map Prod.fst = keys)
    (known : keys.Nodup ∧ ∀ key ∈ keys, PairFree key ∧ ∀ code ∈ key, code < 0x110000)
    (texts : ∀ entry ∈ fields, ∀ text, entry.2 = some text → ∀ code ∈ text, code < 0x110000) :
    Printable fields :=
  ⟨named ▸ known.1,named ▸ known.2,texts⟩

omit configured in
theorem resolvePrincipal_detail {header : Option Str} {detail : Str}
    (failed : resolvePrincipal tables config.tokens header = .error (.authError detail)) :
    ∀ code ∈ detail, code < 0x110000 := by
  rw [resolvePrincipal] at failed
  split at failed
  · rename_i failure bearer
    cases failed
    unfold extractBearerToken at bearer
    split at bearer
    · cases bearer
      decide
    · cases bearer
      decide
    · rename_i value _
      generalize Unicode.partition 32 value = parts at bearer
      obtain ⟨scheme,token⟩ := parts
      dsimp only at bearer
      split_ifs at bearer
      · cases bearer
        decide
      · cases bearer
        decide
  · split at failed
    · cases failed
    · split at failed
      · rename_i failure matched
        cases failed
        cases matchToken_error matched
      · cases failed
        decide
      · cases failed

omit configured in
theorem evaluate_reason {principal : Principal} {message : RpcMessage} {enforce : Bool}
    {denial : Denial} (denied : evaluate tables principal message enforce = some denial) :
    ∀ code ∈ denial.reason, code < 0x110000 := by
  simp only [evaluate] at denied
  split_ifs at denied
  · cases denied
    decide
  · split at denied
    · split at denied
      · cases denied
        decide
      · split_ifs at denied
        cases denied
        decide
    · cases denied
      decide

theorem trail_printable (arrival : Arrival) :
    ∀ fields ∈ trail tables format config arrival, Printable fields := by
  have constant {text : Str} (small : ∀ code ∈ text, code < 0x110000) :
      ∀ other, some text = some other → ∀ code ∈ other, code < 0x110000 := by
    rintro other ⟨⟩
    exact small
  intro fields written
  cases arrival with
  | post request =>
    simp only [trail] at written
    split at written
    · rename_i detail failed
      obtain rfl := List.mem_singleton.mp written
      refine printable_of [lit "decision",lit "reason",lit "detail"] rfl (by decide) ?_
      simp only [List.forall_mem_cons]
      exact ⟨constant (by decide),constant (by decide),constant (resolvePrincipal_detail failed),
        List.forall_mem_nil _⟩
    · cases written
    · rename_i principal resolved
      obtain ⟨subject,role⟩ :=
        List.forall_mem_append.mp (resolvePrincipal_range configured resolved)
      split at written
      · obtain rfl := List.mem_singleton.mp written
        refine printable_of [lit "decision",lit "subject",lit "role",lit "reason"] rfl
          (by decide) ?_
        simp only [List.forall_mem_cons]
        exact ⟨constant (by decide),constant subject,constant role,constant (by decide),
          List.forall_mem_nil _⟩
      · rename_i body read
        split at written
        · cases written
        · rename_i parsed ok
          obtain ⟨message,member,rfl⟩ := List.mem_map.mp written
          have octets := Forwarding.readBoundedBody_octets request config.maxBodyBytes body read
          obtain ⟨method,tool⟩ := parsePayload_texts octets ok member
          refine printable_of [lit "decision",lit "subject",lit "role",lit "method",lit "tool",
            lit "reason"] rfl (by decide) ?_
          simp only [logDecision,List.forall_mem_cons]
          refine ⟨constant ?_,constant subject,constant role,constant method,tool,?_,
            List.forall_mem_nil _⟩
          · split_ifs <;> decide
          · intro reason given
            obtain ⟨denial,denied,rfl⟩ := Option.map_eq_some_iff.mp given
            exact evaluate_reason denied
  | passthrough method authorization =>
    simp only [trail] at written
    split at written
    · cases written
    · rename_i principal resolved
      obtain ⟨subject,role⟩ :=
        List.forall_mem_append.mp (resolvePrincipal_range configured resolved)
      obtain rfl := List.mem_singleton.mp written
      refine printable_of [lit "decision",lit "subject",lit "role",lit "method",lit "reason"] rfl
        (by decide) ?_
      simp only [logPassthrough,List.forall_mem_cons]
      refine ⟨constant (by decide),constant subject,constant role,constant ?_,constant (by decide),
        List.forall_mem_nil _⟩
      cases method <;> decide

omit configured in
theorem allows_decided (principal : Principal) (messages : List RpcMessage) :
    ((messages.map (fun message => logDecision principal message
      (evaluate tables principal message config.enforceMethodAllowlist))).map (fun fields =>
        .ok (told fields))).filter allows =
    ((messages.filter (fun message =>
      (evaluate tables principal message config.enforceMethodAllowlist).isNone)).map
      (fun message => logDecision principal message none)).map (fun fields =>
        .ok (told fields)) := by
  induction messages with
  | nil => rfl
  | cons message messages ih =>
    rw [List.map_cons,List.map_cons,List.filter_cons,ih,List.filter_cons]
    cases evaluate tables principal message config.enforceMethodAllowlist <;> rfl

omit configured in
/-- The body that is sent for a request is read as the messages that policy allows. -/
theorem sent_records {request : Request} {principal : Principal} {parsed : ParsedPayload}
    (understood : Forwarding.Understood tables format config request principal parsed)
    (unjoined : Forwarding.Unjoined tables format config request) :
    (sent tables format config (.post request)).flatMap (Sent.records tables format) =
      (Forwarding.allowedMessages tables config principal parsed).map (fun message =>
        logDecision principal message none) := by
  simp only [sent,understood.1]
  cases reply : handleMcpPost tables format config request with
  | contact body denials allowed isBatch =>
    obtain ⟨_,_,again,ok⟩ := Forwarding.contacts_parsed tables format config unjoined ⟨denials,
      allowed,isBatch,reply⟩
    obtain ⟨rfl,rfl⟩ :=
      Forwarding.understood_unique tables format config request _ _ _ _ understood again
    simp only [List.flatMap_singleton,Sent.records,ok]
  | _ =>
    rw [show Forwarding.allowedMessages tables config principal parsed = [] by
      by_contra some_
      obtain ⟨_,_,_,_,contacted⟩ :=
        Forwarding.contacts_allowed tables format config understood some_
      cases reply.symm.trans contacted]
    rfl

omit configured in
theorem trail_allows (arrival : Arrival)
    (unjoined : ∀ request, arrival = .post request →
      Forwarding.Unjoined tables format config request) :
    ((trail tables format config arrival).map (fun fields => .ok (told fields))).filter allows =
      ((sent tables format config arrival).flatMap (Sent.records tables format)).map (fun fields =>
        .ok (told fields)) := by
  cases arrival with
  | post request =>
    cases resolved : resolvePrincipal tables config.tokens request.authorization with
    | error failure =>
      simp only [trail,sent,handleMcpPost,resolved]
      cases failure <;> rfl
    | ok principal =>
      cases read : readBoundedBody request config.maxBodyBytes with
      | none =>
        simp only [trail,sent,handleMcpPost,resolved,read]
        rfl
      | some body =>
        cases ok : parsePayload tables format body with
        | error failure =>
          simp only [trail,sent,handleMcpPost,resolved,read,ok]
          cases failure <;> rfl
        | ok parsed =>
          have understood : Forwarding.Understood tables format config request principal parsed :=
            ⟨resolved,body,read,ok⟩
          rw [sent_records understood (unjoined request rfl)]
          simp only [trail,resolved,read,ok]
          exact allows_decided principal parsed.messages
  | passthrough method authorization =>
    simp only [trail,sent]
    cases resolvePrincipal tables config.tokens authorization <;> rfl

end Told

/-- However the stamps and the texts of the requests look, the log has one line for each record and reads back as the
records. Where no request is one whose messages change when they are encoded again, the records that say ALLOW are those
of the messages that the bodies sent downstream are read as, one for each message, in order. -/
theorem log_tells (tables : Unicode.Tables) (format : Json.FloatFormat) (config : Config)
    (configured : ∀ text, config.tokens = some text → ∀ code ∈ text, code < 0x110000)
    (arrivals : List Arrival) (entries : List (Stamp × Fields))
    (audited : entries.map Prod.snd = arrivals.flatMap (trail tables format config)) :
    readLog format (written entries) = (arrivals.flatMap (trail tables format config)).map
      (fun fields => .ok (told fields)) ∧
    ((∀ request, .post request ∈ arrivals → Forwarding.Unjoined tables format config request) →
      (readLog format (written entries)).filter allows =
        ((arrivals.flatMap (sent tables format config)).flatMap (Sent.records tables format)).map
          (fun fields => .ok (told fields))) := by
  have printable : ∀ entry ∈ entries, Printable entry.2 := by
    intro entry member
    have listed : entry.2 ∈ entries.map Prod.snd := List.mem_map_of_mem member
    rw [audited] at listed
    obtain ⟨arrival,_,own⟩ := List.mem_flatMap.mp listed
    exact trail_printable configured arrival entry.2 own
  have read := readLog_written format printable
  rw [audited] at read
  refine ⟨read,fun unjoined => ?_⟩
  rw [read]
  clear read audited printable
  induction arrivals with
  | nil => rfl
  | cons arrival arrivals ih =>
    have first :=
      trail_allows arrival (fun request same => unjoined request (same ▸ List.mem_cons_self))
    have later := ih (fun request member => unjoined request (List.mem_cons_of_mem _ member))
    rw [List.flatMap_cons,List.flatMap_cons,List.map_append,List.filter_append,first,later,
      List.flatMap_append,List.map_append]

def sampleStamp : Stamp :=
  ⟨lit "2026-01-05 10:00:00,000 INFO     mcp_gateway.audit: ",
      by unfold Json.Visible; decide,by decide⟩

/-- The batch, and the end of a session. -/
def postedAndRelayed : List Arrival :=
  [.post callsRequest,.passthrough .delete (some (lit "Bearer admin-token-abc123"))]

theorem callsBody_unjoined {request : Request}
    (whole : readBoundedBody request standard.maxBodyBytes = some callsBody) :
    Forwarding.Unjoined Unicode.ascii .verbatim standard request := by
  have unpaired : (parsePayload Unicode.ascii .verbatim callsBody).toOption.all
      (fun parsed => decide (∀ message ∈ parsed.messages, Json.UnpairedFields message.raw)) =
        true := by decide +kernel
  rintro principal parsed ⟨-,body,read,ok⟩ - message member
  obtain rfl := Option.some.inj (whole.symm.trans read)
  rw [ok] at unpaired
  exact of_decide_eq_true unpaired message (List.mem_filter.mp member).1

private theorem callsRequest_sent :
    (postedAndRelayed.flatMap (sent Unicode.ascii .verbatim standard)).flatMap
    (Sent.records Unicode.ascii .verbatim) =
    [[(lit "decision",some (lit "ALLOW")),(lit "subject",some (lit "analyst@example.com")),
      (lit "role",some (lit "viewer")),
        (lit "method",some (lit "tools/call")),(lit "tool",some (lit "get_weather")),
          (lit "reason",none)],
      [(lit "decision",some (lit "ALLOW")),(lit "subject",some (lit "analyst@example.com")),
        (lit "role",some (lit "viewer")),
        (lit "method",some (lit "ping")),(lit "tool",none),(lit "reason",none)],
      logPassthrough ⟨lit "ops@example.com",lit "admin"⟩ .delete] := by decide +kernel

theorem log_tells_batch : (readLog .verbatim (written ((postedAndRelayed.flatMap
      (trail Unicode.ascii .verbatim standard)).map (fun fields => (sampleStamp,fields))))).filter
        allows =
    [.ok (told [(lit "decision",some (lit "ALLOW")),
      (lit "subject",some (lit "analyst@example.com")),
        (lit "role",some (lit "viewer")),(lit "method",some (lit "tools/call")),
          (lit "tool",some (lit "get_weather")),
        (lit "reason",none)]),
      .ok (told [(lit "decision",some (lit "ALLOW")),
        (lit "subject",some (lit "analyst@example.com")),
        (lit "role",some (lit "viewer")),(lit "method",some (lit "ping")),(lit "tool",none),
          (lit "reason",none)]),
      .ok (told (logPassthrough ⟨lit "ops@example.com",lit "admin"⟩ .delete))] := by
  have unjoined : ∀ request, .post request ∈ postedAndRelayed →
      Forwarding.Unjoined Unicode.ascii .verbatim standard request := by
    simp only [postedAndRelayed,List.mem_cons,Arrival.post.injEq,List.not_mem_nil,
      reduceCtorEq,or_false]
    rintro request rfl
    exact callsBody_unjoined (by decide +kernel)
  have tells := (log_tells Unicode.ascii .verbatim standard (by simp [standard]) postedAndRelayed
    ((postedAndRelayed.flatMap (trail Unicode.ascii .verbatim standard)).map (fun fields =>
      (sampleStamp,fields)))
    (by simp only [List.map_map,Function.comp_def,List.map_id'])).2 unjoined
  rw [tells,callsRequest_sent]
  rfl

end QuilrMcp.McpGateway.Audit
