import QuilrMcp.Guardrail.Redactor
import QuilrMcp.Guardrail.Sse

/-! The transformer of an event stream: which texts of an event are redacted across events and by
which redactor, what becomes of every other event, and the flushes at the end of a block, after a
failure and at the end of the stream. Beside what the source keeps, a run records what every
redactor returned. -/
namespace QuilrMcp.Guardrail.EventStream
open Library.Text
open Library.Json (Value FloatFormat isZeroFloat truthy)
open Library.Dict (assign ofPairs)
open Redactor
open Sse (SSEEvent)
open Library (Unicode.Tables Unicode.Classes)

/-- What the language brings along. -/
structure Language where
  tables : Library.Unicode.Tables
  classes : Library.Unicode.Classes
  format : FloatFormat

def Language.ascii : Language := ⟨Library.Unicode.ascii,Library.Unicode.asciiClasses,.verbatim⟩

/-- Redactors are created with the default patterns. -/
def Language.options (language : Language) : Options := .default language.classes

section Formatting
variable (tables : Library.Unicode.Tables)

def floatText (text : Str) : Str :=
  if text = lit "NaN" then lit "nan"
  else if text = lit "Infinity" then lit "inf"
  else if text = lit "-Infinity" then lit "-inf"
  else text

mutual
def reprValue : Value → Str
  | .null => lit "None"
  | .bool true => lit "True"
  | .bool false => lit "False"
  | .int value => Library.Json.intText value
  | .float text => floatText text
  | .str text => tables.repr text
  | .list items => lit "[" ++ reprItems items ++ lit "]"
  | .dict fields => lit "\x7b" ++ reprFields fields ++ lit "\x7d"
def reprItems : List Value → Str
  | [] => []
  | [item] => reprValue item
  | item::next::items => reprValue item ++ lit ", " ++ reprItems (next::items)
def reprFields : List (Str × Value) → Str
  | [] => []
  | [(key,value)] => tables.repr key ++ lit ": " ++ reprValue value
  | (key,value)::next::fields => tables.repr key ++ lit ": " ++ reprValue value ++ lit ", " ++
      reprFields (next::fields)
end

def strValue : Value → Str
  | .str text => text
  | value => reprValue tables value

end Formatting

/-- `value in (0, None)` -/
def isZeroOrNone : Value → Bool
  | .null => true
  | .bool value => !value
  | .int value => value == 0
  | .float text => isZeroFloat text
  | _ => false

/-- The data of an event: a text that is not JSON, a payload that is written out, or the data as it
came together with the payload that it spells. -/
inductive Body
  | text (data : Str)
  | json (payload : Value)
  | relayed (data : Str) (payload : Value)

def Body.data : Body → Str
  | .text data => data
  | .json payload => Library.Json.dumps ⟨false,true⟩ payload
  | .relayed data _ => data

def Body.payload : Body → Option Value
  | .text _ => none
  | .json payload => some payload
  | .relayed _ payload => some payload

/-- An event that the transformer yields. -/
structure Emission where
  event : Option Str
  body : Body

def Emission.toEvent (emission : Emission) : SSEEvent := ⟨emission.event,emission.body.data⟩

/-- The parsed data, or none where it is no JSON; a JSON null is none as well. -/
def eventJson (format : FloatFormat) (event : SSEEvent) : Option Value :=
  match Library.Json.loads (ε := Empty) format (fun pairs => .ok (ofPairs pairs)) event.data with
  | .ok .null => none
  | .ok payload => some payload
  | .error _ => none

def textDeltaEvent : Str := lit "content_block_delta"

def blockStopEvent : Str := lit "content_block_stop"

/-- The key of the main channel. -/
def mainText : Str := []

inductive ThinkingPolicy
  | drop
  | redact
  | pass
  deriving DecidableEq

inductive SchemaPolicy
  | redact
  | block
  | pass
  deriving DecidableEq

structure StreamPolicy where
  thinking : ThinkingPolicy
  unknownSchema : SchemaPolicy

def StreamPolicy.default : StreamPolicy := ⟨.drop,.redact⟩

inductive Step
  | field (name : Str)
  | item (position : Nat)
  deriving DecidableEq

abbrev Path := List Step

/-- The payload with the leaf at a path replaced, or none where the path raises. -/
def replaceAt : Path → Value → Str → Option Value
  | [], _, value => some (.str value)
  | .item position::rest, .list items, value => do
    let inner ← items[position]?
    let inner ← replaceAt rest inner value
    return .list (items.set position inner)
  | .field name::rest, .dict fields, value => do
    let inner ← fields.lookup name
    let inner ← replaceAt rest inner value
    return .dict (assign name inner fields)
  | _::_, _, _ => none

structure Located where
  key : Str
  path : Path
  text : Str
  deriving DecidableEq

section Locate
variable (tables : Library.Unicode.Tables)

/-- The text of a block delta. -/
def locateDelta (fields : List (Str × Value)) : List Located :=
  match fields.lookup (lit "delta") with
  | some (.dict delta) =>
    let index := (fields.lookup (lit "index")).getD (.int 0)
    match delta.lookup (lit "type") with
    | some (.str kind) =>
      if kind = lit "text_delta" then
        match delta.lookup (lit "text") with
        | some (.str text) =>
          [⟨if isZeroOrNone index then mainText else lit "text:" ++ strValue tables index,
            [.field (lit "delta"),.field (lit "text")],text⟩]
        | _ => []
      else if kind = lit "input_json_delta" then
        match delta.lookup (lit "partial_json") with
        | some (.str text) =>
          [⟨lit "json:" ++ strValue tables index,[.field (lit "delta"),.field (lit "partial_json")],
            text⟩]
        | _ => []
      else []
    | _ => []
  | _ => []

/-- `choice.get("delta") or choice.get("message")` -/
def innerOf (choice : List (Str × Value)) : Value :=
  let delta := (choice.lookup (lit "delta")).getD .null
  if truthy delta then delta else (choice.lookup (lit "message")).getD .null

def fieldName (choice : List (Str × Value)) : Str :=
  if (choice.lookup (lit "delta")).isSome then lit "delta" else lit "message"

/-- The text of the choice at a position; `claimed` says whether a block delta was found before. -/
def locateChoice (claimed : Bool) (choice : Value) (position : Nat) : Option Located :=
  match choice with
  | .dict choice =>
    match innerOf choice with
    | .dict inner =>
      match inner.lookup (lit "content") with
      | some (.str text) =>
        some ⟨if position = 0 ∧ claimed = false then mainText
            else lit "openai:" ++ Library.Json.natText position,
          [.field (lit "choices"),.item position,.field (fieldName choice),
            .field (lit "content")],text⟩
      | _ => none
    | _ => none
  | _ => none

def locateChoices (claimed : Bool) : List Value → Nat → List Located
  | [], _ => []
  | choice::choices, position => (locateChoice claimed choice position).toList ++
      locateChoices claimed choices (position + 1)

/-- The choices of a payload, if it has a list of them. -/
def choicesOf (fields : List (Str × Value)) : List Value :=
  match fields.lookup (lit "choices") with
  | some (.list choices) => choices
  | _ => []

def locateTexts : Value → List Located
  | .dict fields =>
    locateDelta tables fields ++ locateChoices (!(locateDelta tables fields).isEmpty)
      (choicesOf fields) 0
  | _ => []

end Locate

/-- Lists and dictionaries have no hash. -/
def hashable : Value → Bool
  | .list _ => false
  | .dict _ => false
  | _ => true

def isThinkingKind : Value → Bool
  | .str kind => kind == lit "thinking_delta" || kind == lit "signature_delta"
  | _ => false

def isThinkingBlock (fields : List (Str × Value)) : Bool :=
  match fields.lookup (lit "content_block") with
  | some (.dict block) =>
    match block.lookup (lit "type") with
    | some (.str kind) => kind == lit "thinking"
    | _ => false
  | _ => false

/-- None where the type of the delta has no hash. -/
def isThinking : Value → Option Bool
  | .dict fields =>
    match fields.lookup (lit "delta") with
    | some (.dict delta) =>
      let kind := (delta.lookup (lit "type")).getD .null
      if hashable kind then some (isThinkingKind kind || isThinkingBlock fields) else none
    | _ => some (isThinkingBlock fields)
  | _ => some false

/-- What a rebuild closure keeps. -/
structure Rebuild where
  payload : Value
  path : Path
  event : Option Str

def Rebuild.apply (rebuild : Rebuild) (safe : Str) : Option Emission :=
  (replaceAt rebuild.path rebuild.payload safe).map (fun payload => ⟨rebuild.event,.json payload⟩)

structure Channel where
  redactor : StreamRedactor
  rebuild : Option Rebuild

structure Channels where
  main : Channel
  others : List (Str × Channel)

def Channels.new : Channels := ⟨⟨.new,none⟩,[]⟩

def Channels.get (self : Channels) (key : Str) : Channel :=
  if key = mainText then self.main else (self.others.lookup key).getD ⟨.new,none⟩

def Channels.set (self : Channels) (key : Str) (channel : Channel) : Channels :=
  if key = mainText then {self with main := channel}
  else {self with others := assign key channel self.others}

@[simp] theorem Channels.get_new (key : Str) : Channels.new.get key = ⟨.new,none⟩ := by
  rw [Channels.get]
  split_ifs <;> rfl

@[simp] theorem Channels.get_set (self : Channels) (key : Str) (channel : Channel) :
    (self.set key channel).get key = channel := by
  rw [Channels.get,Channels.set]
  split_ifs <;> simp

theorem Channels.get_set_other (self : Channels) {key other : Str} (channel : Channel)
    (apart : other ≠ key) :
    (self.set key channel).get other = self.get other := by
  rw [Channels.get,Channels.get,Channels.set]
  split_ifs with main second
  · exact absurd (main.trans second.symm) apart
  · rfl
  · rfl
  · rw [Library.Dict.lookup_assign_other _ _ _ _ apart]

def defaultTextRebuild (text : Str) : Emission :=
  ⟨some textDeltaEvent,.json (.dict [(lit "type",.str textDeltaEvent),(lit "index",.int 0),
    (lit "delta",.dict [(lit "type",.str (lit "text_delta")),(lit "text",.str text)])])⟩

/-- How far a step came: the channels, what it yielded, what each redactor returned, and whether it raised. -/
structure Outcome where
  channels : Channels
  emitted : List Emission
  returned : List (Str × Str)
  raised : Bool

def Outcome.after (first : Outcome) (next : Channels → Outcome) : Outcome :=
  if first.raised then first
  else
    let later := next first.channels
    ⟨later.channels,first.emitted ++ later.emitted,first.returned ++ later.returned,later.raised⟩

theorem Outcome.after_whole {first : Outcome} (whole : first.raised = false)
    (next : Channels → Outcome) :
    first.after next = ⟨(next first.channels).channels,first.emitted ++
      (next first.channels).emitted,
      first.returned ++ (next first.channels).returned,(next first.channels).raised⟩ := by
  rw [Outcome.after,whole,if_neg Bool.false_ne_true]

theorem Outcome.after_raised {first : Outcome} (whole : first.raised = false)
    (next : Channels → Outcome) :
    (first.after next).raised = (next first.channels).raised := by
  rw [Outcome.after_whole whole]

theorem Outcome.after_channels {first : Outcome} (whole : first.raised = false)
    (next : Channels → Outcome) :
    (first.after next).channels = (next first.channels).channels := by
  rw [Outcome.after_whole whole]

section Transform
variable (language : Language) (policy : StreamPolicy)

def flushChannel (channels : Channels) (key : Str) : Outcome :=
  let channel := channels.get key
  let flushed := channel.redactor.flush language.options
  let channels := channels.set key {channel with redactor := flushed.1}
  if flushed.2.isEmpty then ⟨channels,[],[(key,flushed.2)],false⟩
  else
    match channel.rebuild with
    | none => ⟨channels,[defaultTextRebuild flushed.2],[(key,flushed.2)],false⟩
    | some rebuild =>
      match rebuild.apply flushed.2 with
      | some emission => ⟨channels,[emission],[(key,flushed.2)],false⟩
      | none => ⟨channels,[],[(key,flushed.2)],true⟩

theorem flushChannel_channels (channels : Channels) (key : Str) :
    (flushChannel language channels key).channels =
      channels.set key {channels.get key with redactor :=
        ((channels.get key).redactor.flush language.options).1} := by
  rw [flushChannel]
  generalize (channels.get key).redactor.flush language.options = flushed
  split_ifs
  · rfl
  · generalize channels.get key = channel
    obtain ⟨redactor,rebuild⟩ := channel
    cases rebuild with
    | none => rfl
    | some rebuild =>
      simp only
      cases rebuild.apply flushed.2 <;> rfl

/-- What holds of every channel that holds nothing back is kept by a flush. -/
theorem kept_flushed {holds : Channel → Prop} (empty : ∀ channel, channel.redactor.buffer = [] →
    holds channel) {channels : Channels}
    (key other : Str) (here : holds (channels.get other)) :
    holds ((flushChannel language channels key).channels.get other) := by
  rw [flushChannel_channels]
  by_cases same : other = key
  · rw [same,Channels.get_set]
    exact empty _ rfl
  · rwa [Channels.get_set_other _ _ same]

theorem flushChannel_returned (channels : Channels) (key : Str) :
    (flushChannel language channels key).returned =
    [(key,((channels.get key).redactor.flush language.options).2)] := by
  rw [flushChannel]
  generalize (channels.get key).redactor.flush language.options = flushed
  split_ifs
  · rfl
  · cases (channels.get key).rebuild with
    | none => rfl
    | some rebuild =>
      simp only
      cases rebuild.apply flushed.2 <;> rfl

def flushKeys : List Str → Channels → Outcome
  | [], channels => ⟨channels,[],[],false⟩
  | key::keys, channels => (flushChannel language channels key).after (flushKeys keys)

/-- Every held tail: the main channel's first, then the others' in the order of their keys. -/
def flushAll (channels : Channels) : Outcome :=
  flushKeys language (mainText::(channels.others.map Prod.fst).mergeSort (fun a b =>
    decide (a ≤ b))) channels

/-- Feed the located texts one after the other, each leaf of the copy rewritten. -/
def feedLocated (payload : Value) (name : Option Str) :
    List Located → Value → Bool → Channels → Outcome
  | [], updated, released, channels =>
    ⟨channels,if released then [⟨name,.json updated⟩] else [],[],false⟩
  | place::places, updated, released, channels =>
    let fed := (channels.get place.key).redactor.feed language.options place.text
    let channels := channels.set place.key ⟨fed.1,some ⟨payload,place.path,name⟩⟩
    match replaceAt place.path updated fed.2 with
    | none => ⟨channels,[],[(place.key,fed.2)],true⟩
    | some updated =>
      let later := feedLocated payload name places updated (released || !fed.2.isEmpty) channels
      ⟨later.channels,later.emitted,(place.key,fed.2)::later.returned,later.raised⟩

/-- Whether the event ends a block; none where the payload has no `get`. -/
def endsBlock (event : SSEEvent) (payload : Value) : Option Bool :=
  if event.event = some blockStopEvent then some true
  else
    match payload with
    | .dict fields =>
      match fields.lookup (lit "type") with
      | some (.str kind) => some (kind == blockStopEvent)
      | _ => some false
    | _ => none

def unrecognised (event : SSEEvent) (payload : Value) (channels : Channels) : Outcome :=
  match policy.unknownSchema with
  | .block => ⟨channels,[],[],false⟩
  | .pass => ⟨channels,[⟨event.event,.relayed event.data payload⟩],[],false⟩
  | .redact => ⟨channels,[⟨event.event,.json (redactLeaves language.options payload)⟩],[],false⟩

def handle (event : SSEEvent) (channels : Channels) : Outcome :=
  match eventJson language.format event with
  | none => ⟨channels,[⟨event.event,.text (redactText language.options event.data)⟩],[],false⟩
  | some payload =>
    match isThinking payload with
    | none => ⟨channels,[],[],true⟩
    | some true =>
      match policy.thinking with
      | .drop => ⟨channels,[],[],false⟩
      | .redact => ⟨channels,[⟨event.event,.json (redactLeaves language.options payload)⟩],[],false⟩
      | .pass => ⟨channels,[⟨event.event,.relayed event.data payload⟩],[],false⟩
    | some false =>
      if (locateTexts language.tables payload).isEmpty then
        match endsBlock event payload with
        | none => ⟨channels,[],[],true⟩
        | some true =>
          (flushAll language channels).after (unrecognised language policy event payload)
        | some false => unrecognised language policy event payload channels
      else feedLocated language payload event.event (locateTexts language.tables payload) payload
        false channels

def handleAll : List SSEEvent → Channels → Outcome
  | [], channels => ⟨channels,[],[],false⟩
  | event::events, channels => (handle language policy event channels).after (handleAll events)

def upstreamFailedMessage : Str :=
  lit "The upstream model provider failed part-way through this response."

def errorEvent : Emission :=
  ⟨some (lit "error"),.json (.dict [(lit "type",.str (lit "error")),
    (lit "error",.dict [(lit "type",.str (lit "api_error")),
      (lit "message",.str upstreamFailedMessage)])])⟩

/-- The whole stream, which may break off after the events. -/
def redactSseStream (events : List SSEEvent) (brokenOff : Bool) : Outcome :=
  let handled := handleAll language policy events .new
  let flushed := flushAll language handled.channels
  let closing := if (handled.raised || brokenOff) && !flushed.raised then [errorEvent] else []
  ⟨flushed.channels,handled.emitted ++ flushed.emitted ++ closing,handled.returned ++
    flushed.returned,flushed.raised⟩

/-- Conditions along a run: one for each event and the channels before it, one for the channels that
the run ends in. -/
def meets (calm : SSEEvent → Channels → Bool) (closing : Channels → Bool) :
    List SSEEvent → Channels → Bool
  | [], channels => closing channels
  | event::events, channels =>
    let handled := handle language policy event channels
    calm event channels && if handled.raised then closing handled.channels
      else meets calm closing events handled.channels

/-- What holds of every step that meets the condition, and goes over from steps to runs. -/
theorem handleAll_rule {calm : SSEEvent → Channels → Bool} {closing : Channels → Bool}
    {Good : Outcome → Prop} {Invariant : Channels → Prop}
    (still : ∀ channels, Invariant channels → Good ⟨channels,[],[],false⟩)
    (after : ∀ first next, Good first → (first.raised = false → Good (next first.channels)) →
      Good (first.after next))
    (keeps : ∀ outcome, Good outcome → Invariant outcome.channels)
    (events : List SSEEvent)
    (step : ∀ event ∈ events, ∀ channels, Invariant channels → calm event channels = true →
      Good (handle language policy event channels)) {channels : Channels}
        (invariant : Invariant channels)
    (met : meets language policy calm closing events channels = true) :
    Good (handleAll language policy events channels) ∧
    closing (handleAll language policy events channels).channels = true := by
  induction events generalizing channels with
  | nil =>
    rw [meets] at met
    exact ⟨still channels invariant,met⟩
  | cons event events ih =>
    rw [meets,Bool.and_eq_true] at met
    have first := step event List.mem_cons_self channels invariant met.1
    rw [handleAll]
    cases raised : (handle language policy event channels).raised with
    | true =>
      rw [raised,if_pos rfl] at met
      rw [Outcome.after,raised,if_pos rfl]
      exact ⟨first,met.2⟩
    | false =>
      rw [raised,if_neg Bool.false_ne_true] at met
      have later := ih (fun other member => step other (List.mem_cons_of_mem _ member))
        (keeps _ first) met.2
      refine ⟨after _ _ first fun _ => later.1,?_⟩
      rw [Outcome.after,raised]
      exact later.2

end Transform

end QuilrMcp.Guardrail.EventStream
