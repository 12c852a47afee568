import QuilrMcp.Library.JsonProgress
import QuilrMcp.McpGateway.Forwarding

/-! The bodies that the gateway does not understand: whether each is refused, and the refusal is an answer. -/
namespace QuilrMcp.McpGateway.Refusal
open Library Library.Text
open Library.Json (Value lookup)

/-- An object of the version with a method, whose `params` and id may be what they are. -/
def WellFormed : Value → Prop
  | .dict item => lookup (lit "jsonrpc") item = some (.str (lit "2.0")) ∧
      (∃ code method, lookup (lit "method") item = some (.str (code::method))) ∧
      (∃ params, parseParams (lookup (lit "params") item) = .ok params) ∧
      ∀ id, lookup (lit "id") item = some id → validId id = true
  | _ => False

/-- The id that a refusal gives back. -/
def echoed : Value → Value
  | .dict item => if validId ((lookup (lit "id") item).getD .null) then
      (lookup (lit "id") item).getD .null else .null
  | _ => .null

private theorem isVersion_iff (version : Option Value) :
    isVersion version = true ↔ version = some (.str (lit "2.0")) := by
  constructor
  · intro known
    unfold isVersion at known
    split at known
    · rw [of_decide_eq_true known]
    · contradiction
  · rintro rfl
    rfl

theorem parseOne_cases (item : Value) : (WellFormed item ∧ ∃ message, parseOne item = .ok message) ∨
    (¬ WellFormed item ∧ ∃ code message, parseOne item =
      .error (.invalidPayload code (lit message) (echoed item))) := by
  cases item with
  | dict item =>
    simp only [parseOne,echoed,WellFormed]
    by_cases version : isVersion (lookup (lit "jsonrpc") item) = true
    · have same := (isVersion_iff _).mp version
      rw [version,if_neg (by simp)]
      split
      · rename_i code method named
        split
        · rename_i error structured
          refine Or.inr ⟨?_,_,_,rfl⟩
          rintro ⟨-,-,⟨params,known⟩,-⟩
          rw [structured] at known
          contradiction
        · rename_i params structured
          cases id : lookup (lit "id") item with
          | none => exact Or.inl ⟨⟨same,⟨code,method,named⟩,⟨params,structured⟩,by simp⟩,_,rfl⟩
          | some rawId =>
            cases valid : validId rawId with
            | true =>
              refine Or.inl ⟨⟨same,⟨code,method,named⟩,⟨params,structured⟩,?_⟩,by simp [valid]⟩
              intro other found
              rw [← Option.some.inj found,valid]
            | false =>
              refine Or.inr ⟨?_,_,_,by simp [valid]; exact ⟨rfl,rfl⟩⟩
              rintro ⟨-,-,-,known⟩
              rw [known rawId rfl] at valid
              contradiction
      · rename_i unnamed
        refine Or.inr ⟨?_,_,_,rfl⟩
        rintro ⟨-,⟨code,method,named⟩,-⟩
        exact unnamed code method named
    · rw [if_pos (by simpa using version)]
      refine Or.inr ⟨?_,_,_,rfl⟩
      rintro ⟨same,-⟩
      exact version ((isVersion_iff _).mpr same)
  | _ => exact Or.inr ⟨id,_,_,rfl⟩

/-- The first item that is not well formed. -/
inductive Refuses : Value → Value → Prop
  | batch {front back : List Value} {item : Value} : (∀ other ∈ front, WellFormed other) →
      ¬ WellFormed item →
      Refuses (.list (front ++ item::back)) item
  | single {item : Value} : (∀ items, item ≠ .list items) → ¬ WellFormed item → Refuses item item

private theorem parseAll_refuses (front back : List Value) (item : Value)
    (before : ∀ other ∈ front, WellFormed other) (refused : ¬ WellFormed item) : ∃ code message,
      parseAll (front ++ item::back) =
        .error (.invalidPayload code (lit message) (echoed item)) := by
  induction front with
  | nil =>
    obtain ⟨wellFormed,-⟩ | ⟨-,code,message,failed⟩ := parseOne_cases item
    · exact absurd wellFormed refused
    · exact ⟨code,message,by rw [List.nil_append,parseAll,failed]⟩
  | cons other front ih =>
    obtain ⟨first,rest⟩ := List.forall_mem_cons.mp before
    obtain ⟨code,message,failed⟩ := ih rest
    obtain ⟨-,parsed,read⟩ | ⟨malformed,-⟩ := parseOne_cases other
    · exact ⟨code,message,by rw [List.cons_append,parseAll,read]; simp only [failed,Except.map]⟩
    · exact absurd first malformed

private theorem parseAll_accepts (items : List Value) (each : ∀ item ∈ items, WellFormed item) :
    ∃ messages, parseAll items = .ok messages := by
  induction items with
  | nil => exact ⟨[],rfl⟩
  | cons item items ih =>
    obtain ⟨first,rest⟩ := List.forall_mem_cons.mp each
    obtain ⟨messages,read⟩ := ih rest
    obtain ⟨-,message,parsed⟩ | ⟨malformed,-⟩ := parseOne_cases item
    · exact ⟨message::messages,by rw [parseAll,parsed]; simp only [read,Except.map]⟩
    · exact absurd first malformed

theorem parseDocument_refuses {document item : Value} (refuses : Refuses document item) :
    ∃ code message, parseDocument document =
      .error (.invalidPayload code (lit message) (echoed item)) := by
  cases refuses with
  | @batch front back _ before refused =>
    obtain ⟨code,message,failed⟩ := parseAll_refuses front back item before refused
    refine ⟨code,message,?_⟩
    rw [parseDocument.eq_def]
    split
    · rename_i empty
      simp at empty
    · rename_i items _ same
      cases same
      rw [failed]
      rfl
    · rename_i single
      exact absurd rfl (single _)
  | single alone refused =>
    obtain ⟨wellFormed,-⟩ | ⟨-,code,message,failed⟩ := parseOne_cases document
    · exact absurd wellFormed refused
    · refine ⟨code,message,?_⟩
      rw [parseDocument.eq_def]
      split
      · exact absurd rfl (alone _)
      · exact absurd rfl (alone _)
      · rw [failed]
        rfl

private theorem first_malformed (items : List Value) : (∀ item ∈ items, WellFormed item) ∨
    ∃ front item back, items = front ++ item::back ∧ (∀ other ∈ front, WellFormed other) ∧
    ¬ WellFormed item := by
  induction items with
  | nil => exact Or.inl (List.forall_mem_nil _)
  | cons first items ih =>
    by_cases wellFormed : WellFormed first
    · rcases ih with each | ⟨front,item,back,rfl,before,malformed⟩
      · exact Or.inl (List.forall_mem_cons.mpr ⟨wellFormed,each⟩)
      · exact Or.inr ⟨first::front,item,back,rfl,List.forall_mem_cons.mpr ⟨wellFormed,before⟩,
          malformed⟩
    · exact Or.inr ⟨[],first,items,rfl,List.forall_mem_nil _,wellFormed⟩

/-- A document that is no usable payload is refused for its first item that is not well formed, or has none. -/
theorem parseDocument_settles (document : Value) : (∃ parsed, parseDocument document = .ok parsed) ∨
    document = .list [] ∨ ∃ item, Refuses document item := by
  by_cases batch : ∃ items, document = .list items
  · obtain ⟨items,rfl⟩ := batch
    rcases first_malformed items with each | ⟨front,item,back,rfl,before,malformed⟩
    · cases items with
      | nil => exact Or.inr (Or.inl rfl)
      | cons first rest =>
        obtain ⟨messages,read⟩ := parseAll_accepts _ each
        refine Or.inl ⟨⟨messages,true⟩,?_⟩
        rw [parseDocument,read]
        · rfl
        · simp
    · exact Or.inr (Or.inr ⟨item,Refuses.batch before malformed⟩)
  · have alone : ∀ items, document ≠ .list items := fun items same => batch ⟨items,same⟩
    obtain ⟨-,message,parsed⟩ | ⟨malformed,-⟩ := parseOne_cases document
    · refine Or.inl ⟨⟨[message],false⟩,?_⟩
      rw [parseDocument.eq_def]
      split
      · exact absurd rfl (alone _)
      · exact absurd rfl (alone _)
      · rw [parsed]
        rfl
    · exact Or.inr (Or.inr ⟨document,Refuses.single alone malformed⟩)

/-- A text without surrogates, and no infinity. -/
def Writable (id : Value) : Prop := Json.finite id = true ∧ ∀ text, id = .str text → ∀ code ∈ text,
    isSurrogate code = false

theorem lit_scalar (text : String) : ∀ code ∈ lit text, isSurrogate code = false := by
  intro code member
  obtain ⟨character,-,rfl⟩ := List.mem_map.mp member
  have valid : character.toNat < 0xD800 ∨ 0xDFFF < character.toNat ∧ character.toNat < 0x110000 :=
    character.valid
  rw [isSurrogate,Bool.and_eq_false_iff,decide_eq_false_iff_not,decide_eq_false_iff_not]
  omega

section Answers
variable {format : Json.FloatFormat}

private theorem printed_scalar {text : Str} (printed : Json.Printed text) :
    ∀ code ∈ text, isSurrogate code = false :=
  fun code member => Json.scalar_small ((printed code member).2.trans (by decide))

private theorem id_scalar {id : Value} (valid : validId id = true) (sound : Json.Sound format id) :
    (∀ code ∈ Json.dumps Json.compact id, isSurrogate code = false) ↔
      ∀ text, id = .str text → ∀ code ∈ text, isSurrogate code = false := by
  cases id with
  | str text =>
    rw [Json.dumps,Json.writeString_scalar Json.compact rfl text]
    simp only [Value.str.injEq,forall_eq']
  | null => exact iff_of_true (by decide) (by simp)
  | int value =>
    exact iff_of_true (printed_scalar (Json.dumps_printed format ⟨true,true⟩ rfl _ sound)) (by simp)
  | float text =>
    exact iff_of_true (printed_scalar (Json.dumps_printed format ⟨true,true⟩ rfl _ sound)) (by simp)
  | _ => contradiction

/-- A refusal can be written where its id can, if its text can. -/
theorem errorResponse_renders {message : Str} {id : Value} (code : Int)
    (plain : ∀ part ∈ message, isSurrogate part = false) (valid : validId id = true)
    (sound : Json.Sound format id) :
    (Json.render (errorResponse code message id none)).isSome = true ↔ Writable id := by
  have number : ∀ part ∈ Json.dumps Json.compact (.int code), isSurrogate part = false := by
    have digits : Json.Printed (Json.intText code) := Json.intText_printed code
    exact printed_scalar digits
  have text : ∀ part ∈ Json.dumps Json.compact (.str message), isSurrogate part = false :=
    (Json.writeString_scalar Json.compact rfl message).mpr plain
  rw [Json.render_isSome,Writable,← id_scalar valid sound]
  simp only [errorResponse,Option.map_none,Option.toList_none,List.append_nil,Json.finite,
    Json.finiteFields,Bool.and_true,
    Bool.true_and,Json.dumps_dict_scalar Json.compact rfl,List.forall_mem_cons]
  constructor
  · rintro ⟨finite,-,⟨-,written⟩,-⟩
    exact ⟨finite,written⟩
  · rintro ⟨finite,written⟩
    refine ⟨finite,⟨by decide,by decide⟩,⟨by decide,written⟩,⟨by decide,?_⟩,List.forall_mem_nil _⟩
    exact ⟨⟨by decide,number⟩,⟨by decide,text⟩,List.forall_mem_nil _⟩

theorem echoed_valid (item : Value) : validId (echoed item) = true := by
  cases item with
  | dict item =>
    rw [echoed]
    split_ifs with valid
    · exact valid
    · rfl
  | _ => rfl

theorem lookup_sound {fields : List (Str × Value)} {key : Str} {value : Value}
    (sound : Json.Sound format (.dict fields)) (found : lookup key fields = some value) :
    Json.Sound format value := by
  rw [Json.Sound,Json.soundFields_iff] at sound
  induction fields with
  | nil => contradiction
  | cons field fields ih =>
    obtain ⟨here,rest⟩ := List.forall_mem_cons.mp sound
    rw [lookup,Option.or_eq_some_iff] at found
    rcases found with later | ⟨-,first⟩
    · exact ih rest later
    · split_ifs at first
      rw [← Option.some.inj first]
      exact here.2

theorem echoed_sound {item : Value} (sound : Json.Sound format item) :
    Json.Sound format (echoed item) := by
  cases item with
  | dict item =>
    rw [echoed]
    split_ifs with valid
    · cases found : lookup (lit "id") item with
      | none => trivial
      | some id => exact lookup_sound sound found
    · trivial
  | _ => trivial

theorem refuses_sound {document item : Value} (refuses : Refuses document item)
    (sound : Json.Sound format document) :
    Json.Sound format item := by
  cases refuses with
  | batch before malformed =>
    rw [Json.Sound,Json.soundItems_iff] at sound
    exact sound item (by simp)
  | single alone malformed => exact sound

end Answers

section Bodies
variable (tables : Unicode.Tables) (format : Json.FloatFormat) (config : Config) (request : Request)

/-- The body is parsed as at least one message or refused, and no failure of another kind gets out: what
is not understood is answered with a 400 that carries a JSON-RPC error. -/
structure InProtocol (body : Bytes) : Prop where
  settled : (∃ parsed, parsePayload tables format body = .ok parsed ∧ parsed.messages ≠ []) ∨
    ∃ code message id, parsePayload tables format body = .error (.invalidPayload code message id)
  answered : (∀ parsed, parsePayload tables format body ≠ .ok parsed) → ∃ code message id,
    ∀ forward, respond tables format config request forward =
      .rendered 400 (errorResponse code message id none)

/-- Text in its encoding, whose reader comes to no integer that is too long. -/
def Decodes (body : Bytes) : Prop :=
  ∃ text, Encoding.decodeDetected body = some text ∧ ¬ Json.Overlong format rejectDuplicateKeys text

/-- Blank, or decoded; and if the text is a document with an item to refuse, the id of that item can be written. -/
def Answerable (body : Bytes) : Prop :=
  body.all isAsciiSpace = true ∨ Decodes format body ∧
    ∀ text document item, Encoding.decodeDetected body = some text →
      Json.loads format rejectDuplicateKeys text = .ok document → Refuses document item →
      Writable (echoed item)

variable {tables format config request}
variable {principal : Principal} {body : Bytes}

private theorem respond_refused
    (resolved : resolvePrincipal tables config.tokens request.authorization = .ok principal)
    (read : readBoundedBody request config.maxBodyBytes = some body) {code : Int}
    {message : Str} {id : Value}
    (refused : parsePayload tables format body = .error (.invalidPayload code message id))
    (forward : Bytes → Except DownstreamError Downstream) :
    respond tables format config request forward =
      jsonRpcResponse (errorResponse code message id none) 400 := by
  simp only [respond,handleMcpPost,resolved,read,refused]

private theorem parsePayload_failed (filled : ¬ body.all isAsciiSpace = true)
    {failure : ParseFailure} (failed : loadDocument tables format body = .error failure) :
    parsePayload tables format body = .error failure := by
  rw [parsePayload,if_neg filled,failed]

private theorem parsePayload_document (filled : ¬ body.all isAsciiSpace = true) {document : Value}
    (loaded : loadDocument tables format body = .ok document) :
    parsePayload tables format body = parseDocument document := by
  rw [parsePayload,if_neg filled,loaded]

/-- Why a body is refused: for what it is as a whole, with no id, or for an item. -/
private theorem refused_cases (tables : Unicode.Tables) (octets : ∀ byte ∈ body, byte < 0x100)
    (decodes : Decodes format body) (filled : ¬ body.all isAsciiSpace = true) :
    (∃ parsed, parsePayload tables format body = .ok parsed) ∨
    (∃ code message, parsePayload tables format body = .error (.invalidPayload code message .null) ∧
      ((∃ text, message = lit text) ∨
        ∃ key, message = lit "Duplicate key " ++ tables.repr key ++
          lit " in a JSON object; the request is ambiguous.")) ∨
    ∃ text document item code message, Encoding.decodeDetected body = some text ∧
      Json.loads format rejectDuplicateKeys text = .ok document ∧ Json.Sound format document ∧
      Refuses document item ∧
      parsePayload tables format body =
        .error (.invalidPayload code (lit message) (echoed item)) := by
  obtain ⟨text,decoded,short⟩ := decodes
  cases loaded : Json.decode format rejectDuplicateKeys text with
  | error error =>
    have read : loadDocument tables format body = .error (loadFailure tables error) := by
      simp only [loadDocument,decoded,loaded]
    rw [parsePayload_failed filled read]
    refine Or.inr (Or.inl ?_)
    have unmarked (other : ∀ message, error ≠ .syntaxError message) :
        Json.loads format rejectDuplicateKeys text = .error error := by
      rcases Json.decode_cases format rejectDuplicateKeys text with same | ⟨-,failed,-⟩
      · rw [← same,loaded]
      · rw [loaded] at failed
        exact absurd (Except.error.inj failed) (other _)
    cases error with
    | syntaxError message =>
      refine ⟨_,_,rfl,Or.inl ⟨"Invalid JSON: " ++ message ++ ".",?_⟩⟩
      simp [lit]
    | valueError =>
      exact absurd ((Json.loads_valueError_iff format _ text).mp (unmarked (by simp))) short
    | hook key => exact ⟨_,_,rfl,Or.inr ⟨key,rfl⟩⟩
    | outOfFuel => exact absurd (unmarked (by simp)) (Json.loads_fueled format _ text)
  | ok document =>
    have read : loadDocument tables format body = .ok document := by
      simp only [loadDocument,decoded,loaded]
    have sound := (Forwarding.loadDocument_sound tables format body octets document read).1
    rw [parsePayload_document filled read]
    rcases parseDocument_settles document with parsed | rfl | ⟨item,refuses⟩
    · exact Or.inl parsed
    · exact Or.inr (Or.inl ⟨_,_,rfl,Or.inl ⟨_,rfl⟩⟩)
    · obtain ⟨code,message,refused⟩ := parseDocument_refuses refuses
      exact Or.inr (Or.inr ⟨text,document,item,code,message,decoded,
        (Json.decode_ok_iff format _).mp loaded,sound,refuses,refused⟩)

private theorem answers (resolved : resolvePrincipal tables config.tokens request.authorization =
    .ok principal)
    (read : readBoundedBody request config.maxBodyBytes = some body) {code : Int}
    {message : Str} {id : Value}
    (refused : parsePayload tables format body = .error (.invalidPayload code message id))
    (written : (Json.render (errorResponse code message id none)).isSome = true) :
    InProtocol tables format config request body := by
  refine ⟨Or.inr ⟨code,message,id,refused⟩,fun _ => ⟨code,message,id,fun forward => ?_⟩⟩
  rw [respond_refused resolved read refused,jsonRpcResponse,if_pos written]

private theorem answered_decodes (filled : ¬ body.all isAsciiSpace = true)
    (inProtocol : InProtocol tables format config request body) : Decodes format body := by
  have known (failure : ParseFailure) (failed : loadDocument tables format body = .error failure) :
      ∃ code message id, failure = .invalidPayload code message id := by
    have read := parsePayload_failed filled failed
    rcases inProtocol.settled with ⟨parsed,ok,-⟩ | ⟨code,message,id,refused⟩
    · rw [read] at ok
      contradiction
    · rw [read] at refused
      exact ⟨code,message,id,Except.error.inj refused⟩
  cases decoded : Encoding.decodeDetected body with
  | none =>
    obtain ⟨code,message,id,other⟩ :=
      known .unicodeDecodeError (by simp only [loadDocument,decoded])
    contradiction
  | some text =>
    refine ⟨text,decoded,?_⟩
    intro long
    have overlong := (Json.loads_valueError_iff format rejectDuplicateKeys text).mpr long
    have failed : Json.decode format rejectDuplicateKeys text = .error .valueError := by
      rcases Json.decode_cases format rejectDuplicateKeys text with same | ⟨-,-,message,failed⟩
      · rw [same,overlong]
      · cases overlong.symm.trans failed
    obtain ⟨code,message,id,other⟩ :=
      known .valueError (by simp only [loadDocument,decoded,failed,loadFailure])
    contradiction

private theorem answered_writable
    (resolved : resolvePrincipal tables config.tokens request.authorization = .ok principal)
    (read : readBoundedBody request config.maxBodyBytes = some body)
    (filled : ¬ body.all isAsciiSpace = true)
    (inProtocol : InProtocol tables format config request body) {text : Str} {document item : Value}
    (decoded : Encoding.decodeDetected body = some text)
    (loaded : Json.loads format rejectDuplicateKeys text = .ok document)
    (refuses : Refuses document item) :
    Writable (echoed item) := by
  have octets := Forwarding.readBoundedBody_octets request _ body read
  have whole : loadDocument tables format body = .ok document := by
    simp only [loadDocument,decoded,(Json.decode_ok_iff format _).mpr loaded]
  have sound := (Forwarding.loadDocument_sound tables format body octets document whole).1
  obtain ⟨code,message,failed⟩ := parseDocument_refuses refuses
  rw [← parsePayload_document filled whole] at failed
  obtain ⟨code',message',id',answer⟩ :=
    inProtocol.answered (fun parsed ok => by rw [failed] at ok; contradiction)
  have answer := answer (fun _ => .error .timeout)
  rw [respond_refused resolved read failed,jsonRpcResponse] at answer
  split_ifs at answer with written
  exact (errorResponse_renders code (lit_scalar message) (echoed_valid item)
    (echoed_sound (refuses_sound refuses sound))).mp written

/-- The bodies that are not answered in the protocol are those in no encoding, those with an integer that is too
long, and those with an id that no answer can carry. -/
theorem inProtocol_iff (quoted : ∀ text, ∀ code ∈ tables.repr text, isSurrogate code = false)
    (resolved : resolvePrincipal tables config.tokens request.authorization = .ok principal)
    (read : readBoundedBody request config.maxBodyBytes = some body) :
    InProtocol tables format config request body ↔ Answerable format body := by
  have octets := Forwarding.readBoundedBody_octets request _ body read
  by_cases blank : body.all isAsciiSpace = true
  · refine iff_of_true ?_ (Or.inl blank)
    have refused : parsePayload tables format body =
        .error (.invalidPayload invalidRequest (lit "Empty request body.")
          .null) := by rw [parsePayload,if_pos blank]
    exact answers resolved read refused
      ((@errorResponse_renders format _ .null _ (lit_scalar _) rfl trivial).mpr ⟨rfl,by simp⟩)
  · constructor
    · intro inProtocol
      refine Or.inr ⟨answered_decodes blank inProtocol,?_⟩
      intro text document item decoded loaded refuses
      exact answered_writable resolved read blank inProtocol decoded loaded refuses
    · rintro (blank' | ⟨decodes,writable⟩)
      · exact absurd blank' blank
      · rcases refused_cases tables octets decodes blank with ⟨parsed,ok⟩ | ⟨code,message,
          refused,origin⟩ |
          ⟨text,document,item,code,message,decoded,loaded,sound,refuses,refused⟩
        · refine ⟨Or.inl ⟨parsed,ok,?_⟩,fun none => absurd ok (none parsed)⟩
          obtain ⟨document,-,shape⟩ := Forwarding.parsePayload_ok tables format body parsed ok
          rcases (Forwarding.parseDocument_cases document parsed shape).2 with ⟨-,some_,-⟩ | ⟨-,
            message,single,-⟩
          · exact some_
          · rw [single]
            exact List.cons_ne_nil _ _
        · apply answers resolved read refused
          have plain : ∀ part ∈ message, isSurrogate part = false := by
            rcases origin with ⟨text,rfl⟩ | ⟨key,rfl⟩
            · exact lit_scalar text
            · rw [List.forall_mem_append,List.forall_mem_append]
              exact ⟨⟨lit_scalar _,quoted key⟩,lit_scalar _⟩
          exact (@errorResponse_renders format _ .null _ plain rfl trivial).mpr ⟨rfl,by simp⟩
        · apply answers resolved read refused
          have written := writable text document item decoded loaded refuses
          exact (errorResponse_renders code (lit_scalar message) (echoed_valid item)
            (echoed_sound (refuses_sound refuses sound))).mpr written

end Bodies

/-- ASCII tables whose `repr` escapes surrogates. -/
def escaping : Unicode.Tables :=
  {Unicode.ascii with repr := fun text => 39::text.flatMap (fun code =>
    if isSurrogate code then Json.unicodeEscape code else [code]) ++ [39]}

private theorem escaping_quoted (text : Str) :
    ∀ code ∈ escaping.repr text, isSurrogate code = false := by
  have part (code : Nat) : ∀ other ∈ (if isSurrogate code then Json.unicodeEscape code else [code]),
    isSurrogate other = false := by
    split_ifs with surrogate
    · exact Json.unicodeEscape_scalar code
    · exact List.forall_mem_singleton.mpr (by simpa using surrogate)
  simp only [escaping,List.forall_mem_append,List.forall_mem_cons,List.forall_mem_flatMap]
  exact ⟨⟨by decide,fun code _ => part code⟩,by decide⟩

/-- One octet, which begins no character. -/
def strayBody : Bytes := [0x80]

def strayRequest : Request := ⟨some (lit "Bearer viewer-token-xyz789"),none,[strayBody],by decide⟩

private theorem strayRequest_read :
    resolvePrincipal escaping none strayRequest.authorization = .ok Forwarding.viewer ∧
      readBoundedBody strayRequest 1048576 = some strayBody := by decide +kernel

theorem inProtocol_iff_stray :
    InProtocol escaping .verbatim ⟨none,1048576,true,false⟩ strayRequest strayBody ↔
    Answerable .verbatim strayBody :=
  inProtocol_iff escaping_quoted strayRequest_read.1 strayRequest_read.2

/-- The body that cannot be decoded is no refusal, and the request fails with a 500. -/
theorem stray_octet_raised :
    ¬ ∀ (tables : Unicode.Tables) (format : Json.FloatFormat) (config : Config) (request : Request) (principal : Principal)
      (body : Bytes), (∀ text, ∀ code ∈ tables.repr text, isSurrogate code = false) →
      resolvePrincipal tables config.tokens request.authorization = .ok principal →
      readBoundedBody request config.maxBodyBytes = some body →
      InProtocol tables format config request body := by
  intro always
  have inProtocol :=
    always escaping .verbatim ⟨none,1048576,true,false⟩ strayRequest Forwarding.viewer strayBody
    escaping_quoted strayRequest_read.1 strayRequest_read.2
  have raised : parsePayload escaping .verbatim strayBody = .error .unicodeDecodeError := by rfl
  rcases inProtocol.settled with ⟨parsed,ok,-⟩ | ⟨code,message,id,refused⟩
  · rw [raised] at ok
    contradiction
  · rw [raised] at refused
    cases refused

end QuilrMcp.McpGateway.Refusal
