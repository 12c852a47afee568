import QuilrMcp.Guardrail.EventStream
import QuilrMcp.Guardrail.SsnSafety
import QuilrMcp.Library.Bounded
import QuilrMcp.Library.Encoding
import QuilrMcp.Library.JsonTokens

/-! The proxy: authenticate, read, ask the upstream provider, and relay its answer either as a stream
or, read as a whole, with every string redacted. -/
namespace QuilrMcp.Guardrail.App
open Library Library.Text
open Library.Json (Value lookup truthy)
open Library.Search (search)
open EventStream
open Redactor
open SsnSafety

structure Config where
  tokens : List Str
  maxBodyBytes : Nat := 4194304

/-- The server has decoded the header and checked that the declared length is a number. -/
structure Request where
  authorization : Option Str
  contentLength : Option Nat
  chunks : List Bytes

/-- What the provider sends, with a content coding undone; it may break off after the chunks. -/
structure Upstream where
  status : Nat
  contentType : Str
  chunks : List Bytes
  octets : ∀ chunk ∈ chunks, ∀ byte ∈ chunk, byte < 0x100
  brokenOff : Bool

/-- An error of the proxy's own, the upstream content as it came, the text of a JSON response, or a
stream. `raised` is answered by the server with a 500. -/
inductive Response
  | refused (status : Nat) (kind message : Str)
  | relayed (status : Nat) (content : Bytes)
  | rendered (status : Nat) (text : Str)
  | streamed (status : Nat) (events : List Emission)
  | raised

/-- The tokens are compared one after the other; none where one of them cannot be encoded. -/
def compareTokens (candidate : Bytes) : List Str → Option Bool
  | [] => some false
  | known::tokens =>
    match Encoding.encodeUtf8 known with
    | none => none
    | some encoded => if encoded = candidate then some true else compareTokens candidate tokens

def authorized (tables : Unicode.Tables) (config : Config) (request : Request) : Option Bool :=
  if config.tokens.isEmpty then some true
  else
    let (scheme,token) := Unicode.partition 32 (request.authorization.getD [])
    if tables.lower scheme ≠ lit "bearer" then some false
    else (Encoding.encodeUtf8 (tables.strip token)).bind (fun candidate =>
      compareTokens candidate config.tokens)

def readBoundedBody (request : Request) (limit : Nat) : Option Bytes :=
  Bounded.readBounded request.contentLength limit request.chunks

inductive LoadFailure
  | jsonDecodeError
  | other
  deriving DecidableEq

/-- `json.loads` of octets. -/
def loads (format : Json.FloatFormat) (content : Bytes) : Except LoadFailure Value :=
  match Encoding.decodeDetected content with
  | none => .error .other
  | some text =>
    match Json.loads (ε := Empty) format (fun pairs => .ok (Dict.ofPairs pairs)) text with
    | .ok value => .ok value
    | .error (.syntaxError _) => .error .jsonDecodeError
    | .error _ => .error .other

def wantsStream (format : Json.FloatFormat) (body : Bytes) : Except LoadFailure Bool :=
  if body.isEmpty then .ok true
  else match loads format body with
    | .ok (.dict fields) => .ok (truthy ((fields.lookup (lit "stream")).getD (.bool true)))
    | .ok _ => .ok true
    | .error .jsonDecodeError => .ok true
    | .error .other => .error .other

def isEventStream (contentType : Str) : Bool := (lit "text/event-stream").isPrefixOf contentType

section Handler
variable (language : Language) (policy : StreamPolicy) (config : Config)

def redactMessageBody (payload : Value) : Value := redactLeaves language.options payload

/-- The answer that is read as a whole. -/
def answerBuffered (upstream : Upstream) : Response :=
  if upstream.brokenOff then .raised
  else match loads language.format upstream.chunks.flatten with
    | .error .jsonDecodeError => .relayed upstream.status upstream.chunks.flatten
    | .error .other => .raised
    | .ok payload =>
      let payload := redactMessageBody language payload
      if (Json.render payload).isSome then
        .rendered upstream.status (Json.dumps Json.compact payload) else .raised

/-- The events of the octets that came; what the parser still holds is lost when they break off. -/
def relay (upstream : Upstream) : List Emission :=
  let events := if upstream.brokenOff then (Sse.SSEParser.new.feedAll upstream.chunks).2
    else Sse.parse upstream.chunks
  (redactSseStream language policy events upstream.brokenOff).emitted

/-- `send` is the upstream request: none where it fails. -/
def handleMessages (request : Request) (send : Bytes → Option Upstream) : Response :=
  match authorized language.tables config request with
  | none => .raised
  | some false => .refused 401 (lit "authentication_error") (lit "Invalid or missing bearer token.")
  | some true =>
    match readBoundedBody request config.maxBodyBytes with
    | none => .refused 413 (lit "invalid_request_error") (lit "Request body is too large.")
    | some body =>
      match wantsStream language.format body with
      | .error _ => .raised
      | .ok wants =>
        match send body with
        | none => .refused 502 (lit "api_error") (lit "The upstream model provider is unavailable.")
        | some upstream =>
          if !wants || !isEventStream upstream.contentType then answerBuffered language upstream
          else .streamed upstream.status (relay language policy upstream)

end Handler

mutual
theorem keys_redactLeaves (options : Options) :
    (value : Value) → Json.keys (redactLeaves options value) = Json.keys value
  | .null => rfl
  | .bool _ => rfl
  | .int _ => rfl
  | .float _ => rfl
  | .str _ => rfl
  | .list items => by rw [redactLeaves,Json.keys,Json.keys,keys_redactItems options items]
  | .dict fields => by rw [redactLeaves,Json.keys,Json.keys,keys_redactFields options fields]
theorem keys_redactItems (options : Options) : (items : List Value) →
    Json.keysItems (redactItems options items) = Json.keysItems items
  | [] => rfl
  | item::items => by
    rw [redactItems,Json.keysItems,Json.keysItems,keys_redactLeaves options item,
      keys_redactItems options items]
theorem keys_redactFields (options : Options) : (fields : List (Str × Value)) →
    Json.keysFields (redactFields options fields) = Json.keysFields fields
  | [] => rfl
  | (_,value)::fields => by
    rw [redactFields,Json.keysFields,Json.keysFields,keys_redactLeaves options value,
      keys_redactFields options fields]
end

mutual
theorem leaves_redactLeaves (options : Options) : (value : Value) →
    Json.leaves (redactLeaves options value) = (Json.leaves value).map (redactLeaves options)
  | .null => rfl
  | .bool _ => rfl
  | .int _ => rfl
  | .float _ => rfl
  | .str _ => rfl
  | .list items => by rw [redactLeaves,Json.leaves,Json.leaves,leaves_redactItems options items]
  | .dict fields => by rw [redactLeaves,Json.leaves,Json.leaves,leaves_redactFields options fields]
theorem leaves_redactItems (options : Options) : (items : List Value) →
    Json.leavesItems (redactItems options items) =
      (Json.leavesItems items).map (redactLeaves options)
  | [] => rfl
  | item::items => by
    rw [redactItems,Json.leavesItems,Json.leavesItems,leaves_redactLeaves options item,
      leaves_redactItems options items,List.map_append]
theorem leaves_redactFields (options : Options) : (fields : List (Str × Value)) →
    Json.leavesFields (redactFields options fields) =
      (Json.leavesFields fields).map (redactLeaves options)
  | [] => rfl
  | (_,value)::fields => by
    rw [redactFields,Json.leavesFields,Json.leavesFields,leaves_redactLeaves options value,
      leaves_redactFields options fields,List.map_append]
end

section Written
variable {classes : Unicode.Classes} {window : Str}

private theorem ssn_ascii (ssn : Ssn classes window) (code : Nat) (small : code < 128)
    (other : Unicode.isAsciiDigit code = false) (apart : code ≠ 45) : code ∉ window := by
  intro member
  rcases ssn_codes classes ssn code member with decimal | hyphen
  · rw [classes.isDecimal_ascii code small,other] at decimal
    contradiction
  · exact apart hyphen

private theorem ssn_marks (ssn : Ssn classes window) : ∀ mark ∈ Json.marks, mark ∉ window := by
  have plain : ∀ mark ∈ Json.marks, mark < 128 ∧ Unicode.isAsciiDigit mark = false ∧ mark ≠ 45 := by
    decide
  intro mark member
  obtain ⟨small,other,apart⟩ := plain mark member
  exact ssn_ascii ssn mark small other apart

private theorem ssn_bare (ssn : Ssn classes window) : ∀ code ∈ window, Json.Bare code := by
  have plain : ∀ mark ∈ lit "\"\\bfnrtu", mark < 128 ∧ Unicode.isAsciiDigit mark = false ∧
    mark ≠ 45 := by decide
  intro code member
  refine ⟨?_,fun special => ?_⟩
  · by_contra low
    refine ssn_ascii ssn code (by omega) ?_ (by omega) member
    simp only [Unicode.isAsciiDigit,Bool.and_eq_false_iff,decide_eq_false_iff_not]
    omega
  · obtain ⟨small,other,apart⟩ := plain code special
    exact ssn_ascii ssn code small other apart member

end Written

/-- A number comes about when the text is written. -/
def Completes (classes : Unicode.Classes) (text : Str) : Prop :=
  ∃ window, Ssn classes window ∧ Json.Completed window text

/-- The text has a number, or one comes about. -/
def Spells (classes : Unicode.Classes) (text : Str) : Prop :=
  ∃ window, Ssn classes window ∧ (window <:+: text ∨ Json.Completed window text)

section Closed
variable (language : Language)

/-- Where a number stands in a written answer: in a key, or where a redacted string completes it. -/
private theorem infix_rendered (payload : Value) (sound : Json.Sound language.format payload)
    {window : Str} (ssn : Ssn language.classes window) :
    window <:+: Json.dumps Json.compact (redactMessageBody language payload) ↔
      (∃ key ∈ Json.keys payload, window <:+: key ∨ Json.Completed window key) ∨
        ∃ text, .str text ∈ Json.leaves payload ∧
        Json.Completed window (redactText language.options text) := by
  have size := ssn.1
  have long : 6 < window.length := by omega
  have filled : window ≠ [] := List.ne_nil_of_length_pos (by omega)
  have bare := ssn_bare ssn
  have letters : 101 ∉ window ∧ 69 ∉ window :=
    ⟨ssn_ascii ssn 101 (by decide) (by decide) (by decide),ssn_ascii ssn 69 (by decide)
      (by decide) (by decide)⟩
  rw [redactMessageBody,Json.infix_dumps Json.compact filled (ssn_marks ssn),Json.InToken,
    keys_redactLeaves,leaves_redactLeaves]
  simp only [Json.infix_written long bare]
  rw [or_comm]
  apply or_congr_right
  constructor
  · rintro ⟨written,member,inside⟩
    obtain ⟨leaf,listed,rfl⟩ := List.mem_map.mp member
    obtain ⟨scalar,known⟩ := Json.leaves_sound language.format payload sound leaf listed
    cases leaf with
    | str text =>
      rw [redactLeaves,Json.dumps,Json.infix_written long bare] at inside
      exact ⟨text,listed,inside.resolve_left (process_clean language.classes [text] ssn)⟩
    | list items => contradiction
    | dict fields => contradiction
    | null => exact absurd inside (Json.scalar_apart language.format _ (ssn_hyphens _ ssn) letters _
        known nofun rfl)
    | bool value =>
      exact absurd inside (Json.scalar_apart language.format _ (ssn_hyphens _ ssn) letters _
        known nofun rfl)
    | int value =>
      exact absurd inside (Json.scalar_apart language.format _ (ssn_hyphens _ ssn) letters _
        known nofun rfl)
    | float value =>
      exact absurd inside (Json.scalar_apart language.format _ (ssn_hyphens _ ssn) letters _
        known nofun rfl)
  · rintro ⟨text,member,completed⟩
    refine ⟨_,List.mem_map_of_mem member,?_⟩
    rw [redactLeaves,Json.dumps,Json.infix_written long bare]
    exact Or.inr completed

/-- No number is in a written answer whose keys spell none and whose redacted strings complete none. -/
theorem search_rendered_iff (payload : Value) (sound : Json.Sound language.format payload) :
    search (Patterns.ssnExpression language.classes)
      (Json.dumps Json.compact (redactMessageBody language payload)) 0 = none ↔
      (∀ key ∈ Json.keys payload, ¬ Spells language.classes key) ∧
        ∀ text, .str text ∈ Json.leaves payload →
        ¬ Completes language.classes (redactText language.options text) := by
  rw [search_ssn_iff]
  constructor
  · intro clean
    refine ⟨fun key member spells => ?_,fun text member completes => ?_⟩
    · obtain ⟨window,ssn,inside⟩ := spells
      exact clean window ssn ((infix_rendered language payload sound ssn).mpr
        (Or.inl ⟨key,member,inside⟩))
    · obtain ⟨window,ssn,completed⟩ := completes
      exact clean window ssn ((infix_rendered language payload sound ssn).mpr
        (Or.inr ⟨text,member,completed⟩))
  · rintro ⟨keys,texts⟩ window ssn inside
    rcases (infix_rendered language payload sound ssn).mp inside with ⟨key,member,spelt⟩ | ⟨text,
      member,completed⟩
    · exact keys key member ⟨window,ssn,spelt⟩
    · exact texts text member ⟨window,ssn,completed⟩

/-- The answer has no number in it and is not what came from upstream. -/
inductive FailsClosed (classes : Unicode.Classes) : Response → Prop
  | refused (status : Nat) (kind message : Str) : FailsClosed classes (.refused status kind message)
  | rendered (status : Nat) (text : Str) : search (Patterns.ssnExpression classes) text 0 = none →
      FailsClosed classes (.rendered status text)
  | streamed (status : Nat) (events : List Emission) : FailsClosed classes (.streamed status events)
  | raised : FailsClosed classes .raised

theorem failsClosed_rendered (classes : Unicode.Classes) (status : Nat) (text : Str) :
    FailsClosed classes (.rendered status text) ↔
    search (Patterns.ssnExpression classes) text 0 = none := by
  constructor
  · rintro (_ | ⟨_,_,clean⟩)
    exact clean
  · exact .rendered status text

/-- The content is JSON. Where its redacted form can be answered, its keys spell no number and its
redacted strings complete none. -/
structure Tight (content : Bytes) : Prop where
  json : loads language.format content ≠ .error .jsonDecodeError
  keys : ∀ payload, loads language.format content = .ok payload →
    (Json.render (redactMessageBody language payload)).isSome = true → ∀ key ∈ Json.keys payload,
      ¬ Spells language.classes key
  texts : ∀ payload, loads language.format content = .ok payload →
    (Json.render (redactMessageBody language payload)).isSome = true →
    ∀ text, .str text ∈ Json.leaves payload →
    ¬ Completes language.classes (redactText language.options text)

private theorem loads_sound (format : Json.FloatFormat) (content : Bytes)
    (octets : ∀ byte ∈ content, byte < 0x100) (payload : Value)
    (loaded : loads format content = .ok payload) : Json.Sound format payload := by
  rw [loads] at loaded
  cases decoded : Encoding.decodeDetected content with
  | none => simp [decoded] at loaded
  | some text =>
    simp only [decoded] at loaded
    split at loaded
    · rename_i value read
      cases loaded
      exact Json.loads_dict_sound format text payload (Encoding.decodeDetected_range content octets
        text decoded) read
    · contradiction
    · contradiction

theorem answerBuffered_closed_iff (upstream : Upstream) (whole : upstream.brokenOff = false) :
    FailsClosed language.classes (answerBuffered language upstream) ↔
    Tight language upstream.chunks.flatten := by
  have octets : ∀ byte ∈ upstream.chunks.flatten, byte < 0x100 := by
    intro byte member
    obtain ⟨chunk,listed,member⟩ := List.mem_flatten.mp member
    exact upstream.octets chunk listed byte member
  rw [answerBuffered,whole]
  generalize upstream.chunks.flatten = content at octets ⊢
  cases loaded : loads language.format content with
  | error failure =>
    cases failure with
    | jsonDecodeError => exact iff_of_false nofun (fun tight => tight.json loaded)
    | other => exact iff_of_true .raised ⟨by simp [loaded],by simp [loaded],by simp [loaded]⟩
  | ok payload =>
    have sound := loads_sound language.format content octets payload loaded
    simp only [Bool.false_eq_true,if_false]
    split_ifs with written
    · rw [failsClosed_rendered,search_rendered_iff language payload sound]
      constructor
      · rintro ⟨keys,texts⟩
        refine ⟨by simp [loaded],fun payload' same _ => ?_,fun payload' same _ => ?_⟩
        · cases loaded.symm.trans same
          exact keys
        · cases loaded.symm.trans same
          exact texts
      · exact fun tight => ⟨tight.keys payload loaded written,tight.texts payload loaded written⟩
    · refine iff_of_true .raised
        ⟨by simp [loaded],fun payload' same written' => ?_,fun payload' same written' => ?_⟩
      · cases loaded.symm.trans same
        exact absurd written' written
      · cases loaded.symm.trans same
        exact absurd written' written

/-- The request is answered on the branch that reads the upstream answer as a whole. -/
structure Buffered (config : Config) (request : Request) (send : Bytes → Option Upstream)
    (upstream : Upstream) : Prop where
  admitted : authorized language.tables config request = some true
  sent : ∃ body, readBoundedBody request config.maxBodyBytes = some body ∧
    send body = some upstream ∧ ∃ wants, wantsStream language.format body = .ok wants ∧
    (!wants || !isEventStream upstream.contentType) = true
  whole : upstream.brokenOff = false

theorem handleMessages_buffered (policy : StreamPolicy) {config : Config} {request : Request}
    {send : Bytes → Option Upstream} {upstream : Upstream}
    (buffered : Buffered language config request send upstream) :
    handleMessages language policy config request send = answerBuffered language upstream := by
  obtain ⟨body,read,answered,wants,wanted,branch⟩ := buffered.sent
  simp only [handleMessages,buffered.admitted,read,wanted,answered]
  exact if_pos branch

theorem handleMessages_elsewhere (policy : StreamPolicy) {config : Config} {request : Request}
    {send : Bytes → Option Upstream}
    (elsewhere : ∀ upstream, ¬ Buffered language config request send upstream) :
    FailsClosed language.classes (handleMessages language policy config request send) := by
  rw [handleMessages]
  split
  · exact .raised
  · exact .refused _ _ _
  · rename_i admitted
    split
    · exact .refused _ _ _
    · rename_i body read
      split
      · exact .raised
      · rename_i wants wanted
        split
        · exact .refused _ _ _
        · rename_i upstream answered
          split_ifs with branch
          · have broken : upstream.brokenOff = true := by
              by_contra whole
              exact elsewhere upstream ⟨admitted,⟨body,read,answered,wants,wanted,branch⟩,
                Bool.eq_false_iff.mpr whole⟩
            rw [answerBuffered,if_pos broken]
            exact .raised
          · exact .streamed _ _

/-- What is answered on this branch fails closed exactly where the content is tight. -/
theorem buffered_closed_iff (policy : StreamPolicy) (config : Config) (request : Request)
    (send : Bytes → Option Upstream) :
    FailsClosed language.classes (handleMessages language policy config request send) ↔
      ∀ upstream, Buffered language config request send upstream →
      Tight language upstream.chunks.flatten := by
  by_cases elsewhere : ∀ upstream, ¬ Buffered language config request send upstream
  · exact iff_of_true (handleMessages_elsewhere language policy elsewhere)
      (fun upstream buffered => absurd buffered (elsewhere upstream))
  · simp only [not_forall,not_not] at elsewhere
    obtain ⟨upstream,buffered⟩ := elsewhere
    rw [handleMessages_buffered language policy buffered,
      answerBuffered_closed_iff language upstream buffered.whole]
    constructor
    · intro tight other buffered'
      obtain ⟨body,read,answered,_⟩ := buffered.sent
      obtain ⟨body',read',answered',_⟩ := buffered'.sent
      cases read.symm.trans read'
      cases answered.symm.trans answered'
      exact tight
    · exact fun tight => tight upstream buffered

end Closed

/-- The answer to a request that wants no stream. -/
def plainAnswer (content : Str) (octets : ∀ chunk ∈ [content], ∀ byte ∈ chunk, byte < 0x100) :
    Response :=
  handleMessages .ascii .default ⟨[],4194304⟩ ⟨none,none,[lit "\x7b\"stream\":false\x7d"]⟩
    (fun _ => some ⟨200,lit "application/json",[content],octets,false⟩)

def closedAnswer : Response → Bool
  | .relayed _ _ => false
  | .rendered _ text => (search (Patterns.ssnExpression Unicode.asciiClasses) text 0).isNone
  | _ => true

private theorem open_of_leak (response : Response) (leaks : closedAnswer response = false) :
    ¬ FailsClosed Unicode.asciiClasses response := by
  rintro (_ | ⟨_,_,clean⟩ | _ | _)
  · contradiction
  · rw [closedAnswer,clean] at leaks
    contradiction
  · contradiction
  · contradiction

theorem buffered_leaks :
    ¬ FailsClosed Unicode.asciiClasses (plainAnswer (lit "Your SSN is 123-45-6789") (by decide)) ∧
      ¬ FailsClosed Unicode.asciiClasses (plainAnswer (lit "\x7b\"123-45-6789\":1\x7d")
        (by decide)) ∧
      ¬ FailsClosed Unicode.asciiClasses (plainAnswer (lit "[\"\\u000123-45-6789\"]")
        (by decide)) := by
  refine ⟨open_of_leak _ ?_,open_of_leak _ ?_,open_of_leak _ ?_⟩ <;> decide +kernel

end QuilrMcp.Guardrail.App
