import QuilrMcp.McpGateway.App

/-! What the downstream server is sent, against what the policy allows. -/
namespace QuilrMcp.McpGateway.Forwarding
open Library Library.Text
open Library.Json (Value)

theorem rejectDuplicateKeys_keeps : Json.Keeps rejectDuplicateKeys := by
  intro pairs fields hooked
  unfold rejectDuplicateKeys at hooked
  split at hooked
  · contradiction
  · exact (Except.ok.inj hooked).symm

theorem review_allowed (tables : Unicode.Tables) (config : Config) (principal : Principal)
    (messages : List RpcMessage) :
    (review tables config principal messages).1 =
      messages.filter (fun message =>
        (evaluate tables principal message config.enforceMethodAllowlist).isNone) := by
  induction messages with
  | nil => rfl
  | cons message messages ih =>
    rw [review,List.filter_cons,← ih]
    cases evaluate tables principal message config.enforceMethodAllowlist <;> rfl

theorem parseOne_raw (item : Value) (message : RpcMessage) (parsed : parseOne item = .ok message) :
    item = .dict message.raw := by
  cases item with
  | dict fields =>
    simp only [parseOne] at parsed
    generalize (if validId _ = true then _ else _) = messageId at parsed
    split at parsed
    · contradiction
    · split at parsed
      · split at parsed
        · contradiction
        · split at parsed
          · contradiction
          · cases parsed
            rfl
      · contradiction
  | _ => simp [parseOne] at parsed

theorem parseAll_raw (items : List Value) (messages : List RpcMessage)
    (parsed : parseAll items = .ok messages) :
    items = messages.map (fun message => .dict message.raw) ∧
      ∀ message ∈ messages, parseOne (.dict message.raw) = .ok message := by
  induction items generalizing messages with
  | nil =>
    cases parsed
    simp
  | cons item items ih =>
    rw [parseAll] at parsed
    split at parsed
    · contradiction
    · rename_i message first
      cases later : parseAll items with
      | error failure => simp [later,Except.map] at parsed
      | ok rest =>
        simp only [later,Except.map,Except.ok.injEq] at parsed
        subst messages
        obtain ⟨shape,each⟩ := ih rest later
        have known := parseOne_raw item message first
        refine ⟨by rw [List.map_cons,← shape,← known],?_⟩
        exact List.forall_mem_cons.mpr ⟨known ▸ first,each⟩

theorem parseAll_each (messages : List RpcMessage)
    (each : ∀ message ∈ messages, parseOne (.dict message.raw) = .ok message) :
    parseAll (messages.map (fun message => .dict message.raw)) = .ok messages := by
  induction messages with
  | nil => rfl
  | cons message messages ih =>
    rw [List.map_cons,parseAll,each message List.mem_cons_self]
    simp only [ih (fun other member => each other (List.mem_cons_of_mem _ member)),Except.map]

section Forwarding
variable (tables : Unicode.Tables) (format : Json.FloatFormat) (config : Config)

theorem parsePayload_ok (body : Bytes) (parsed : ParsedPayload)
    (ok : parsePayload tables format body = .ok parsed) :
    ∃ document, loadDocument tables format body = .ok document ∧
    parseDocument document = .ok parsed := by
  unfold parsePayload at ok
  split at ok
  · contradiction
  · split at ok
    · contradiction
    · rename_i document loaded
      exact ⟨document,loaded,ok⟩

theorem loadDocument_sound (body : Bytes) (octets : ∀ byte ∈ body, byte < 0x100) (document : Value)
    (loaded : loadDocument tables format body = .ok document) :
    Json.Sound format document ∧ Json.Settled rejectDuplicateKeys document := by
  unfold loadDocument at loaded
  split at loaded
  · contradiction
  · rename_i text decoded
    split at loaded
    · contradiction
    · rename_i value read
      cases loaded
      exact Json.loads_sound format _ rejectDuplicateKeys_keeps text document
        (Encoding.decodeDetected_range body octets text decoded)
        ((Json.decode_ok_iff format _).mp read)

theorem loadDocument_dumps (value : Value) (sound : Json.Sound format value) :
    loadDocument tables format (Json.dumps ⟨true,true⟩ value) =
      (Json.rebuild rejectDuplicateKeys true value).mapError (loadFailure tables) := by
  have printed := Json.dumps_printed format ⟨true,true⟩ rfl value sound
  have read : Json.decode format rejectDuplicateKeys (Json.dumps ⟨true,true⟩ value) =
      Json.rebuild rejectDuplicateKeys true value := by
    rw [← Json.loads_dumps format rejectDuplicateKeys ⟨true,true⟩ value sound]
    rcases Json.decode_cases format rejectDuplicateKeys
      (Json.dumps ⟨true,true⟩ value) with same | ⟨marked,-⟩
    · exact same
    · have mark := printed _ (List.mem_of_mem_head? marked)
      omega
  simp only [loadDocument,Encoding.decodeDetected_ascii _ printed,read]
  cases Json.rebuild rejectDuplicateKeys true value <;> rfl

theorem parseDocument_cases (document : Value) (parsed : ParsedPayload)
    (ok : parseDocument document = .ok parsed) :
    (∀ message ∈ parsed.messages, parseOne (.dict message.raw) = .ok message) ∧
    ((parsed.isBatch = true ∧ parsed.messages ≠ [] ∧
        document = .list (parsed.messages.map (fun message => .dict message.raw))) ∨
      (parsed.isBatch = false ∧ ∃ message, parsed.messages = [message] ∧
        document = .dict message.raw)) := by
  unfold parseDocument at ok
  split at ok
  · contradiction
  · rename_i items nonempty
    cases all : parseAll items with
    | error failure => simp [all,Except.map] at ok
    | ok messages =>
      simp only [all,Except.map,Except.ok.injEq] at ok
      subst parsed
      obtain ⟨shape,each⟩ := parseAll_raw items messages all
      refine ⟨each,Or.inl ⟨rfl,?_,by rw [← shape]⟩⟩
      rintro rfl
      exact nonempty (by simpa using shape)
  · cases one : parseOne document with
    | error failure => simp [one,Except.map] at ok
    | ok message =>
      simp only [one,Except.map,Except.ok.injEq] at ok
      subst parsed
      have shape := parseOne_raw document message one
      exact ⟨by simpa using shape ▸ one,Or.inr ⟨rfl,message,rfl,shape⟩⟩

/-- A list of messages that was encoded again is parsed as these messages exactly when none of
its strings holds a pair of surrogates. -/
theorem parsePayload_encoded (messages : List RpcMessage) (nonempty : messages ≠ [])
    (sound : ∀ message ∈ messages, Json.Sound format (.dict message.raw))
    (settled : ∀ message ∈ messages, Json.Settled rejectDuplicateKeys (.dict message.raw))
    (each : ∀ message ∈ messages, parseOne (.dict message.raw) = .ok message) :
    parsePayload tables format
      (Json.dumps ⟨true,true⟩ (.list (messages.map (fun message => .dict message.raw)))) =
      .ok ⟨messages,true⟩ ↔ ∀ message ∈ messages, Json.UnpairedFields message.raw := by
  have soundList : Json.Sound format (.list (messages.map (fun message => .dict message.raw))) := by
    simpa [Json.Sound,Json.soundItems_iff] using sound
  have settledList : Json.Settled rejectDuplicateKeys
    (.list (messages.map (fun message => .dict message.raw))) := by
    simpa only [Json.Settled,Json.settledItems_iff,List.forall_mem_map] using settled
  have same := Json.rebuild_eq_iff rejectDuplicateKeys rejectDuplicateKeys_keeps _ settledList
  simp only [Json.Unpaired,Json.unpairedItems_iff,List.forall_mem_map] at same
  rw [← same]
  have loaded := loadDocument_dumps tables format _ soundList
  have solid : (Json.dumps ⟨true,true⟩
    (.list (messages.map (fun message => .dict message.raw)))).all isAsciiSpace =
      false := by simp [Json.dumps,isAsciiSpace]
  constructor
  · intro ok
    obtain ⟨document,read,parsed⟩ := parsePayload_ok tables format _ _ ok
    rcases (parseDocument_cases document _ parsed).2 with ⟨-,-,shape⟩ | ⟨single,-⟩
    · rw [loaded,shape] at read
      rw [← shape] at read ⊢
      cases rebuilt : Json.rebuild rejectDuplicateKeys true document with
      | error error => simp [rebuilt,Except.mapError] at read
      | ok value =>
        simp only [rebuilt,Except.mapError,Except.ok.injEq] at read
        rw [read]
    · contradiction
  · intro rebuilt
    rw [rebuilt] at loaded
    rw [parsePayload,solid]
    simp only [Bool.false_eq_true,if_false,loaded,Except.mapError]
    obtain ⟨first,rest,rfl⟩ := List.exists_cons_of_ne_nil nonempty
    simp only [List.map_cons,parseDocument]
    rw [← List.map_cons (f := fun message : RpcMessage => Value.dict message.raw),
      parseAll_each _ each]
    rfl

/-- The caller and the messages that the gateway decides on. -/
def Understood (request : Request) (principal : Principal) (parsed : ParsedPayload) : Prop :=
  resolvePrincipal tables config.tokens request.authorization = .ok principal ∧
    ∃ body, readBoundedBody request config.maxBodyBytes = some body ∧
    parsePayload tables format body = .ok parsed

/-- The messages that policy allows, in their order. -/
def allowedMessages (principal : Principal) (parsed : ParsedPayload) : List RpcMessage :=
  parsed.messages.filter (fun message =>
    (evaluate tables principal message config.enforceMethodAllowlist).isNone)

def Contacts (request : Request) (sent : Bytes) : Prop :=
  ∃ denials allowed isBatch, handleMcpPost tables format config request =
    .contact sent denials allowed isBatch

/-- The bytes are parsed as the allowed messages, in the shape of the request, and for a caller who
is not admin no message of theirs calls a privileged tool. -/
def SendsExactly (principal : Principal) (parsed : ParsedPayload) (sent : Bytes) : Prop :=
  parsePayload tables format sent = .ok ⟨allowedMessages tables config principal parsed,
    parsed.isBatch⟩ ∧
    (principal.isAdmin = false → ∀ forwarded, parsePayload tables format sent = .ok forwarded →
      ∀ message ∈ forwarded.messages, message.method = toolsCall →
      ∀ name, message.toolName = some name →
        isPrivilegedTool tables name = false)

structure ForwardsExactly (request : Request) : Prop where
  contacted : (∃ sent, Contacts tables format config request sent) ↔
    ∃ principal parsed, Understood tables format config request principal parsed ∧
      allowedMessages tables config principal parsed ≠ []
  exactly : ∀ sent, Contacts tables format config request sent →
    ∃ principal parsed, Understood tables format config request principal parsed ∧
      SendsExactly tables format config principal parsed sent

theorem readBoundedBody_octets (request : Request) (limit : Nat) (body : Bytes)
    (read : readBoundedBody request limit = some body) : ∀ byte ∈ body, byte < 0x100 := by
  obtain rfl := Bounded.readBounded_flatten read
  intro byte member
  obtain ⟨chunk,among,own⟩ := List.mem_flatten.mp member
  exact request.octets chunk among byte own

theorem contacts_iff (request : Request) (sent : Bytes) :
    Contacts tables format config request sent ↔
    ∃ principal body parsed first rest,
      resolvePrincipal tables config.tokens request.authorization = .ok principal ∧
      readBoundedBody request config.maxBodyBytes = some body ∧
      parsePayload tables format body = .ok parsed ∧
      allowedMessages tables config principal parsed = first::rest ∧
      forwardBody body parsed first rest = some sent := by
  constructor
  · rintro ⟨denials,allowed,isBatch,reply⟩
    unfold handleMcpPost at reply
    split at reply
    · contradiction
    · contradiction
    · rename_i principal resolved
      split at reply
      · contradiction
      · rename_i body read
        split at reply
        · contradiction
        · contradiction
        · rename_i parsed ok
          split at reply
          · contradiction
          · contradiction
          · rename_i first rest local_ reviewed
            split at reply
            · contradiction
            · rename_i forwarded found
              cases reply
              refine ⟨principal,body,parsed,first,rest,resolved,read,ok,?_,found⟩
              rw [allowedMessages,← review_allowed,reviewed]
  · rintro ⟨principal,body,parsed,first,rest,resolved,read,ok,allowed,found⟩
    rw [allowedMessages,← review_allowed] at allowed
    have reviewed : review tables config principal parsed.messages =
        (first::rest,(review tables config principal parsed.messages).2) := by rw [← allowed]
    refine ⟨(review tables config principal parsed.messages).2,first::rest,parsed.isBatch,?_⟩
    unfold handleMcpPost
    simp only [resolved,read,ok]
    rw [reviewed]
    simp only [found]

/-- What is sent: the body itself when nothing is blocked, else a list that was encoded again. -/
theorem forwardBody_cases (principal : Principal) (body : Bytes) (parsed : ParsedPayload)
    (first : RpcMessage) (rest : List RpcMessage) (octets : ∀ byte ∈ body, byte < 0x100)
    (ok : parsePayload tables format body = .ok parsed)
    (allowed : allowedMessages tables config principal parsed = first::rest) :
    (∀ message ∈ first::rest, parseOne (.dict message.raw) = .ok message ∧
      Json.Sound format (.dict message.raw) ∧
      Json.Settled rejectDuplicateKeys (.dict message.raw)) ∧
    ((first::rest = parsed.messages ∧ forwardBody body parsed first rest = some body) ∨
      (first::rest ≠ parsed.messages ∧ parsed.isBatch = true ∧
        forwardBody body parsed first rest = some (Json.dumps ⟨true,true⟩
          (.list ((first::rest).map (fun message => .dict message.raw)))))) := by
  obtain ⟨document,loaded,shape⟩ := parsePayload_ok tables format body parsed ok
  obtain ⟨sound,settled⟩ := loadDocument_sound tables format body octets document loaded
  obtain ⟨each,cases_⟩ := parseDocument_cases document parsed shape
  have fewer : (first::rest).Sublist parsed.messages := allowed ▸ List.filter_sublist
  have known : ∀ message ∈ parsed.messages, Json.Sound format (.dict message.raw) ∧
      Json.Settled rejectDuplicateKeys (.dict message.raw) := by
    rcases cases_ with ⟨-,-,rfl⟩ | ⟨-,message,single,rfl⟩
    · simp only [Json.Sound,Json.Settled,Json.soundItems_iff,Json.settledItems_iff,
        List.forall_mem_map] at sound settled
      exact fun message member => ⟨sound message member,settled message member⟩
    · intro other member
      rw [single,List.mem_singleton] at member
      exact member ▸ ⟨sound,settled⟩
  refine ⟨fun message member => ⟨each message (fewer.subset member),
    known message (fewer.subset member)⟩,?_⟩
  by_cases all : (first::rest).length = parsed.messages.length
  · exact Or.inl ⟨fewer.eq_of_length all,by rw [forwardBody,if_pos all]⟩
  · refine Or.inr ⟨fun same => all (by rw [same]),?_⟩
    rcases cases_ with ⟨batch,-,-⟩ | ⟨-,message,single,-⟩
    · refine ⟨batch,?_⟩
      rw [forwardBody,if_neg all,batch,if_pos rfl]
      refine Encoding.encodeUtf8_ascii _ (fun code member =>
        (Json.dumps_printed format ⟨true,true⟩ rfl _ ?_ code member).2)
      simp only [Json.Sound,Json.soundItems_iff,List.forall_mem_map]
      exact fun message member => (known message (fewer.subset member)).1
    · have short := fewer.length_le
      rw [single] at short all
      simp only [List.length_cons,List.length_nil] at short all
      omega

/-- A call of the tool with that name. -/
def Calls (message : RpcMessage) (name : Str) : Prop :=
  message.method = toolsCall ∧ message.toolName = some name

theorem evaluate_call (principal : Principal) {message : RpcMessage} {name : Str}
    (calls : Calls message name) (enforced : Bool) :
    evaluate tables principal message enforced = none ↔
    (principal.isAdmin || !isPrivilegedTool tables name) = true := by
  obtain ⟨method,named⟩ := calls
  have listed : message.method ∈ knownMethods := by rw [method]; decide
  have call : normalizeMethod tables message.method = toolsCall := by
    rw [method,toolsCall_normalized]
  obtain ⟨fields,params⟩ : ∃ fields, message.params = some (.dict fields) := by
    unfold RpcMessage.toolName at named
    split at named
    · rename_i fields shape
      exact ⟨fields,shape⟩
    · contradiction
  simp only [evaluate,listed,call,params,named,decide_true,Bool.not_true,Bool.and_false,
    Bool.false_eq_true,if_false,ne_eq,not_true_eq_false]
  cases principal.isAdmin <;> cases isPrivilegedTool tables name <;> simp

/-- An allowed call of a caller who is not admin is not of a privileged tool. -/
theorem allowed_unprivileged (principal : Principal) (message : RpcMessage)
    (viewer : principal.isAdmin = false)
    (allowed : evaluate tables principal message config.enforceMethodAllowlist = none)
    (call : message.method = toolsCall) (name : Str) (named : message.toolName = some name) :
    isPrivilegedTool tables name = false := by
  have permitted := (evaluate_call tables principal ⟨call,named⟩ _).mp allowed
  rwa [viewer,Bool.false_or,Bool.not_eq_true'] at permitted

/-- Where some messages are blocked, no string of the others, keys included, has a high surrogate
directly before a low one. -/
def Unjoined (request : Request) : Prop :=
  ∀ principal parsed, Understood tables format config request principal parsed →
    allowedMessages tables config principal parsed ≠ parsed.messages →
    ∀ message ∈ allowedMessages tables config principal parsed, Json.UnpairedFields message.raw

theorem understood_unique (request : Request) (principal principal' : Principal)
    (parsed parsed' : ParsedPayload)
    (understood : Understood tables format config request principal parsed)
    (again : Understood tables format config request principal' parsed') :
    principal = principal' ∧ parsed = parsed' := by
  obtain ⟨resolved,body,read,ok⟩ := understood
  obtain ⟨resolved',body',read',ok'⟩ := again
  obtain rfl := Option.some.inj (read.symm.trans read')
  exact ⟨Except.ok.inj (resolved.symm.trans resolved'),Except.ok.inj (ok.symm.trans ok')⟩

private theorem sendsExactly_of_parsed (principal : Principal) (parsed : ParsedPayload)
    (sent : Bytes)
    (ok : parsePayload tables format sent = .ok ⟨allowedMessages tables config principal parsed,
      parsed.isBatch⟩) :
    SendsExactly tables format config principal parsed sent := by
  refine ⟨ok,?_⟩
  intro viewer forwarded again message member call name named
  obtain rfl := Except.ok.inj (ok.symm.trans again)
  have allowed := (List.mem_filter.mp member).2
  exact allowed_unprivileged tables config principal message viewer
    (Option.isNone_iff_eq_none.mp allowed) call name named

theorem contacts_allowed {request : Request} {principal : Principal} {parsed : ParsedPayload}
    (understood : Understood tables format config request principal parsed)
    (some_ : allowedMessages tables config principal parsed ≠ []) :
    ∃ sent, Contacts tables format config request sent := by
  obtain ⟨resolved,body,read,ok⟩ := understood
  obtain ⟨first,rest,allowed⟩ := List.exists_cons_of_ne_nil some_
  obtain ⟨-,⟨-,sends⟩ | ⟨-,-,sends⟩⟩ :=
    forwardBody_cases tables format config principal body parsed first rest
    (readBoundedBody_octets request _ body read) ok allowed
  all_goals exact ⟨_,(contacts_iff tables format config request _).mpr
    ⟨principal,body,parsed,first,rest,resolved,read,ok,allowed,sends⟩⟩

/-- What is sent is read as the messages that policy allows. -/
theorem contacts_parsed {request : Request} (unjoined : Unjoined tables format config request)
    {sent : Bytes} (contacts : Contacts tables format config request sent) :
    ∃ principal parsed, Understood tables format config request principal parsed ∧
      parsePayload tables format sent = .ok ⟨allowedMessages tables config principal parsed,
        parsed.isBatch⟩ := by
  obtain ⟨principal,body,parsed,first,rest,resolved,read,ok,allowed,found⟩ :=
    (contacts_iff tables format config request sent).mp contacts
  have understood : Understood tables format config request principal parsed :=
    ⟨resolved,body,read,ok⟩
  refine ⟨principal,parsed,understood,?_⟩
  obtain ⟨each,⟨same,sends⟩ | ⟨blocked,batch,sends⟩⟩ :=
    forwardBody_cases tables format config principal body parsed
    first rest (readBoundedBody_octets request _ body read) ok allowed
  · obtain rfl := Option.some.inj (found.symm.trans sends)
    rw [allowed,same]
    exact ok
  · obtain rfl := Option.some.inj (found.symm.trans sends)
    rw [allowed,batch]
    refine (parsePayload_encoded tables format (first::rest) (by simp) (fun message member =>
      (each message member).2.1)
      (fun message member => (each message member).2.2) (fun message member =>
        (each message member).1)).mpr ?_
    rw [← allowed]
    exact unjoined principal parsed understood (allowed ▸ blocked)

/-- The gateway forwards exactly what policy allows unless it encodes again a string in which two
surrogates stand side by side: the reader then joins them. -/
theorem forwardsExactly_iff_unjoined (request : Request) :
    ForwardsExactly tables format config request ↔ Unjoined tables format config request := by
  constructor
  · intro exact_ principal parsed understood blocked
    obtain ⟨resolved,body,read,ok⟩ := understood
    cases allowed : allowedMessages tables config principal parsed with
    | nil => simp
    | cons first rest =>
      obtain ⟨each,unblocked | ⟨-,batch,sends⟩⟩ :=
        forwardBody_cases tables format config principal body parsed first rest
        (readBoundedBody_octets request _ body read) ok allowed
      · exact absurd (allowed.trans unblocked.1) blocked
      · have contacts := (contacts_iff tables format config request _).mpr
          ⟨principal,body,parsed,first,rest,resolved,read,ok,allowed,sends⟩
        obtain ⟨principal',parsed',understood',parses,-⟩ := exact_.exactly _ contacts
        obtain ⟨rfl,rfl⟩ := understood_unique tables format config request _ _ _ _ ⟨resolved,body,
          read,ok⟩ understood'
        rw [allowed,batch] at parses
        exact (parsePayload_encoded tables format (first::rest) (by simp) (fun message member =>
          (each message member).2.1)
          (fun message member => (each message member).2.2) (fun message member =>
            (each message member).1)).mp parses
  · intro unjoined
    constructor
    · constructor
      · rintro ⟨sent,contacts⟩
        obtain ⟨principal,body,parsed,first,rest,resolved,read,ok,allowed,-⟩ :=
          (contacts_iff tables format config request sent).mp contacts
        exact ⟨principal,parsed,⟨resolved,body,read,ok⟩,by simp [allowed]⟩
      · rintro ⟨principal,parsed,understood,some_⟩
        exact contacts_allowed tables format config understood some_
    · intro sent contacts
      obtain ⟨principal,parsed,understood,ok⟩ :=
        contacts_parsed tables format config unjoined contacts
      exact ⟨principal,parsed,understood,sendsExactly_of_parsed tables format config principal
        parsed sent ok⟩

end Forwarding

/-- A batch of a `ping` whose argument holds two surrogates, each in three bytes, and a method that no list knows. -/
def surrogateBody : Bytes :=
  lit "[\x7b\"jsonrpc\":\"2.0\",\"method\":\"ping\",\"params\":\x7b\"x\":\"" ++
    [0xED,0xA0,0xBD,0xED,0xB8,0x80] ++
    lit "\"\x7d\x7d,\x7b\"jsonrpc\":\"2.0\",\"method\":\"nope\"\x7d]"

def surrogateRequest : Request :=
  ⟨some (lit "Bearer viewer-token-xyz789"),none,[surrogateBody],by decide +kernel⟩

def viewer : Principal := ⟨lit "analyst@example.com",lit "viewer"⟩

private theorem surrogateBody_parsed :
    (match parsePayload Unicode.ascii .verbatim surrogateBody with
      | .ok parsed =>
        decide ((allowedMessages Unicode.ascii ⟨none,1048576,true,false⟩ viewer parsed).length ≠
            parsed.messages.length ∧
          ∃ message ∈ allowedMessages Unicode.ascii ⟨none,1048576,true,false⟩ viewer parsed,
            ¬ Json.UnpairedFields message.raw)
      | .error _ => false) = true := by decide +kernel

private theorem surrogateRequest_read :
    resolvePrincipal Unicode.ascii none surrogateRequest.authorization = .ok viewer ∧
      readBoundedBody surrogateRequest 1048576 = some surrogateBody := by decide +kernel

/-- The sublist that is sent for the batch is read back with the two surrogates joined to one code point. -/
theorem surrogates_joined :
    ¬ ∀ (tables : Unicode.Tables) (format : Json.FloatFormat) (config : Config) (request : Request),
      config.enforceMethodAllowlist = true → ForwardsExactly tables format config request := by
  intro exact_
  have unjoined := (forwardsExactly_iff_unjoined _ _ _ _).mp
    (exact_ Unicode.ascii .verbatim ⟨none,1048576,true,false⟩ surrogateRequest rfl)
  have joined := surrogateBody_parsed
  cases ok : parsePayload Unicode.ascii .verbatim surrogateBody with
  | error failure =>
    rw [ok] at joined
    cases joined
  | ok parsed =>
    rw [ok] at joined
    obtain ⟨blocked,message,member,paired⟩ := of_decide_eq_true joined
    exact paired (unjoined viewer parsed ⟨surrogateRequest_read.1,surrogateBody,
      surrogateRequest_read.2,ok⟩
      (fun same => blocked (by rw [same])) message member)

end QuilrMcp.McpGateway.Forwarding
