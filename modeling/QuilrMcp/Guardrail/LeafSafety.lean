import QuilrMcp.Guardrail.Delivery
import QuilrMcp.Guardrail.App

/-! Where the strings come from that the transformer sends: in a run in which no event that it recognises has a string
beside its located texts, each was redacted, and so none has a social security number in it. -/
namespace QuilrMcp.Guardrail.LeafSafety
open Library.Text
open Library.Search
open Library.Json (Value Agrees leaves)
open Library.Dict (assign)
open Redactor
open Sse (SSEEvent)
open EventStream

private theorem agrees_set {α : Type} (of : α → Value) {Kind : Str → Prop} {items items' : List α}
    {value value' : α} (position : Nat)
    (each : ∀ (i : Nat) (item item' : α), items[i]? = some item → items'[i]? = some item' →
      Agrees Kind (of item) (of item'))
    (agrees : Agrees Kind (of value) (of value')) :
    ∀ (i : Nat) (item item' : α), (items.set position value)[i]? = some item →
    (items'.set position value')[i]? = some item' →
      Agrees Kind (of item) (of item') := by
  intro i item item' here there
  by_cases same : position = i
  · subst same
    obtain ⟨bound,rfl⟩ := List.getElem?_eq_some_iff.mp here
    obtain ⟨bound',rfl⟩ := List.getElem?_eq_some_iff.mp there
    rw [List.getElem_set_self,List.getElem_set_self]
    exact agrees
  · rw [List.getElem?_set_ne same] at here there
    exact each i item item' here there

/-- `replaceAt` with a null. -/
def eraseAt : Path → Value → Option Value
  | [], _ => some .null
  | .item position::rest, .list items => do
    let inner ← items[position]?
    let inner ← eraseAt rest inner
    return .list (items.set position inner)
  | .field name::rest, .dict fields => do
    let inner ← fields.lookup name
    let inner ← eraseAt rest inner
    return .dict (assign name inner fields)
  | _::_, _ => none

theorem agrees_replace {Kind : Str → Prop} {path : Path} {value value' next' : Value} {new : Str}
    (agrees : Agrees Kind value value') (kind : Kind new)
    (replaced : replaceAt path value' new = some next') :
    ∃ next, eraseAt path value = some next ∧ Agrees Kind next next' := by
  induction path generalizing value value' next' with
  | nil =>
    rw [replaceAt,Option.some.injEq] at replaced
    exact ⟨.null,by rw [eraseAt],replaced ▸ .text _ new kind⟩
  | cons step rest ih =>
    cases step with
    | item position =>
      cases value' with
      | list items' =>
        obtain ⟨items,rfl,size,each⟩ := Library.Json.agrees_list agrees
        simp only [replaceAt,Option.bind_eq_bind,Option.bind_eq_some_iff,Option.pure_def,
          Option.some.injEq] at replaced
        obtain ⟨inner',there,inside',after',rfl⟩ := replaced
        have bound : position < items.length := size ▸ (List.getElem?_eq_some_iff.mp there).1
        have here := List.getElem?_eq_getElem bound
        obtain ⟨inside,after,agreed⟩ := ih (each position _ inner' here there) after'
        refine ⟨.list (items.set position inside),?_,?_⟩
        · simp only [eraseAt,here,after,Option.bind_eq_bind,Option.bind_some,Option.pure_def]
        · exact .list _ _ (by rw [List.length_set,List.length_set,size])
            (agrees_set id position each agreed)
      | _ => simp only [replaceAt] at replaced; contradiction
    | field name =>
      cases value' with
      | dict fields' =>
        obtain ⟨fields,rfl,names,each⟩ := Library.Json.agrees_dict agrees
        simp only [replaceAt,Option.bind_eq_bind,Option.bind_eq_some_iff,Option.pure_def,
          Option.some.injEq] at replaced
        obtain ⟨inner',there,inside',after',rfl⟩ := replaced
        obtain ⟨inner,i,also,here,there',set,set'⟩ := Library.Dict.lookup_aligned names there
        obtain ⟨inside,after,agreed⟩ := ih (each i (name,inner) (name,inner') here there') after'
        refine ⟨.dict (assign name inside fields),?_,?_⟩
        · simp only [eraseAt,also,after,Option.bind_eq_bind,Option.bind_some,Option.pure_def]
        · rw [set,set']
          refine .dict _ _ ?_ (@agrees_set _ Prod.snd _ _ _ (name,inside) (name,
            inside') i each agreed)
          rw [List.map_set,List.map_set,names]
      | _ => simp only [replaceAt] at replaced; contradiction

section Texts
variable (classes : Library.Unicode.Classes)

/-- The expression of a social security number matches nowhere in the text. -/
def NumberFree (text : Str) : Prop := search (Patterns.ssnExpression classes) text 0 = none

instance (text : Str) : Decidable (NumberFree classes text) :=
  inferInstanceAs (Decidable (search _ text 0 = none))

private theorem free_of_sealed {text rest : Str}
    (sealed_ : Library.Sealing.Sealed (SsnSafety.Ssn classes) text rest) :
    NumberFree classes text :=
  SsnSafety.search_of_sealed classes sealed_ text (List.infix_refl text)

theorem feed_free (self : StreamRedactor) (chunk : Str) :
    NumberFree classes (self.feed (Options.default classes) chunk).2 := by
  have safe := SsnSafety.safe_feed classes (SsnSafety.safe_start classes self) chunk
  rw [List.nil_append] at safe
  exact free_of_sealed classes (safe [])

theorem flush_free (self : StreamRedactor) :
    NumberFree classes (self.flush (Options.default classes)).2 := by
  have sealed_ := SsnSafety.sealed_flush classes (SsnSafety.safe_start classes self)
  rw [List.nil_append] at sealed_
  exact free_of_sealed classes sealed_

theorem redactText_free (text : Str) :
    NumberFree classes (redactText (Options.default classes) text) :=
  free_of_sealed classes (SsnSafety.process_sealed classes [text])

/-- A text with fewer hyphens than a number has none. -/
theorem free_of_hyphens {text : Str} (few : text.count 45 < 2) : NumberFree classes text := by
  rw [NumberFree,SsnSafety.search_ssn_iff]
  intro window ssn inside
  have hyphens := SsnSafety.ssn_hyphens classes ssn
  have least := inside.sublist.count_le 45
  omega

end Texts

section Conditions
variable (language : Language)

/-- The leaves of what an event carries; what is no JSON is one text. -/
def sentLeaves (emission : Emission) : List Value :=
  match emission.body.payload with
  | some payload => leaves payload
  | none => [.str emission.body.data]

/-- The texts that the transformer writes itself. -/
def ownWords : List Str :=
  [textDeltaEvent,lit "text_delta",lit "error",lit "api_error",upstreamFailedMessage]

def stringOf : Value → Option Str
  | .str text => some text
  | _ => none

/-- The texts of an event that go to `redact_text`. -/
def handed (event : SSEEvent) : List Str :=
  match eventJson language.format event with
  | none => [event.data]
  | some payload =>
    if isThinking payload = some false ∧ (locateTexts language.tables payload).isEmpty then
      (leaves payload).filterMap stringOf
    else []

/-- A redactor returned the text from a feed or a flush, or `redact_text` did, or it is the transformer's own. -/
def Redacted (events : List SSEEvent) (outcome : Outcome) (text : Str) : Prop :=
  (∃ key, (key,text) ∈ outcome.returned) ∨
    (∃ event ∈ events, ∃ original ∈ handed language event, text =
      redactText language.options original) ∨ text ∈ ownWords

/-- The strings among the leaves may be sent as they came. -/
def stringsPass (passes : Str → Bool) (listed : List Value) : Bool :=
  (listed.filterMap stringOf).all passes

def leavesPass (passes : Str → Bool) : Option Value → Bool
  | some payload => stringsPass passes (leaves payload)
  | none => true

/-- The payload without its located texts. -/
def erased : List Located → Value → Option Value
  | [], payload => some payload
  | place::places, payload => (eraseAt place.path payload).bind (erased places)

/-- Whether feeding the places gives any text. -/
def releases : List Located → Channels → Bool
  | [], _ => false
  | place::places, channels =>
    let fed := (channels.get place.key).redactor.feed language.options place.text
    !fed.2.isEmpty ||
      releases places (channels.set place.key {channels.get place.key with redactor := fed.1})

/-- Nothing is held, or the strings beside the channel's own text in the payload that is remembered pass. -/
def tailPasses (passes : Str → Bool) (channel : Channel) : Bool :=
  channel.redactor.buffer.isEmpty ||
    match channel.rebuild with
    | some rebuild => leavesPass passes (eraseAt rebuild.path rebuild.payload)
    | none => true

def tailsPass (passes : Str → Bool) (channels : Channels) : Bool :=
  (mainText::channels.others.map Prod.fst).all (fun key => tailPasses passes (channels.get key))

/-- An event releases text beside other strings, or ends a block while a channel holds text and remembers other
strings, only where these pass. -/
def guarded (passes : Str → Bool) (event : SSEEvent) (channels : Channels) : Bool :=
  match eventJson language.format event with
  | none => true
  | some payload =>
    match isThinking payload with
    | some false =>
      if (locateTexts language.tables payload).isEmpty then endsBlock event payload != some true ||
        tailsPass passes channels
      else
        !releases language (locateTexts language.tables payload) channels ||
          leavesPass passes (erased (locateTexts language.tables payload) payload)
    | _ => true

def guardedRun (passes : Str → Bool) (events : List SSEEvent) (channels : Channels) : Bool :=
  meets language .default (guarded language passes) (tailsPass passes) events channels

/-- There are no other strings. -/
def bareRun (events : List SSEEvent) : Bool := guardedRun language (fun _ => false) events .new

/-- The other strings have no number. -/
def numberlessRun (events : List SSEEvent) : Bool :=
  guardedRun language (fun text => decide (NumberFree language.classes text)) events .new

end Conditions

section Runs
variable (language : Language) (Kind : Str → Prop)

def KindSent (emission : Emission) : Prop := ∀ text, .str text ∈ sentLeaves emission → Kind text

/-- What is sent is of a kind where what the redactors returned is. -/
def Sends (outcome : Outcome) : Prop :=
  (∀ returned ∈ outcome.returned, Kind returned.2) → ∀ emission ∈ outcome.emitted,
    KindSent Kind emission

theorem sends_after {first : Outcome} {next : Channels → Outcome} (before : Sends Kind first)
    (later : first.raised = false → Sends Kind (next first.channels)) :
    Sends Kind (first.after next) := by
  rw [Outcome.after]
  cases raised : first.raised with
  | true => exact before
  | false =>
    rw [if_neg Bool.false_ne_true]
    intro returned
    obtain ⟨early,late⟩ := List.forall_mem_append.mp returned
    exact List.forall_mem_append.mpr ⟨before early,later raised late⟩

private theorem sends_nothing {channels : Channels} {returned : List (Str × Str)} {raised : Bool} :
    Sends Kind ⟨channels,[],returned,raised⟩ := fun _ => List.forall_mem_nil _

private theorem sends_one {channels : Channels} {emission : Emission} {returned : List (Str × Str)}
    {raised : Bool} (sent : (∀ text ∈ returned, Kind text.2) → KindSent Kind emission) :
    Sends Kind ⟨channels,[emission],returned,raised⟩ :=
  fun known => List.forall_mem_singleton.mpr (sent known)

section Passing
variable {Kind}
variable {passes : Str → Bool} (passing : ∀ text, passes text = true → Kind text)
include passing

private theorem leavesPass_some {payload : Value} (pass : leavesPass passes (some payload) = true) :
    ∀ text, .str text ∈ leaves payload → Kind text := by
  intro text member
  rw [leavesPass,stringsPass,List.all_eq_true] at pass
  exact passing text (pass text (List.mem_filterMap.mpr ⟨_,member,rfl⟩))

variable (own : ∀ text ∈ ownWords, Kind text)
include own

omit passing in
private theorem default_sent {text : Str} (kind : Kind text) :
    KindSent Kind (defaultTextRebuild text) := by
  intro other member
  simp only [sentLeaves,defaultTextRebuild,Body.payload,leaves,Library.Json.leavesFields,
    List.append_nil,List.mem_append,
    List.mem_singleton,Value.str.injEq,reduceCtorEq,false_or] at member
  rcases member with rfl | rfl | rfl
  · exact own _ (by simp [ownWords])
  · exact own _ (by simp [ownWords])
  · exact kind

theorem flushChannel_sends {channels : Channels} (key : Str)
    (pass : tailPasses passes (channels.get key) = true) :
    Sends Kind (flushChannel language channels key) := by
  have nothing : ((channels.get key).redactor.flush language.options).2 = [] ↔
    (channels.get key).redactor.buffer = [] :=
    Conservation.flush_nil_iff language.classes (channels.get key).redactor
  rw [flushChannel]
  generalize (channels.get key).redactor.flush language.options = flushed at nothing ⊢
  split_ifs with silent
  · exact sends_nothing Kind
  · have held : (channels.get key).redactor.buffer ≠ [] :=
      fun empty => silent (List.isEmpty_iff.mpr (nothing.mpr empty))
    rw [tailPasses,List.isEmpty_eq_false_iff.mpr held,Bool.false_or] at pass
    cases remembered : (channels.get key).rebuild with
    | none => exact sends_one Kind fun returned => default_sent own (returned _ List.mem_cons_self)
    | some rebuild =>
      rw [remembered] at pass
      simp only at pass ⊢
      cases applied : rebuild.apply flushed.2 with
      | none => exact sends_nothing Kind
      | some emission =>
        refine sends_one Kind fun returned => ?_
        rw [Rebuild.apply,Option.map_eq_some_iff] at applied
        obtain ⟨payload,replaced,rfl⟩ := applied
        obtain ⟨next,erased,agrees⟩ :=
          agrees_replace (.same rebuild.payload) (returned _ List.mem_cons_self) replaced
        rw [erased] at pass
        exact Library.Json.agrees_leaves agrees (leavesPass_some passing pass)

omit passing own in
private theorem tailPasses_empty {channel : Channel} (empty : channel.redactor.buffer = []) :
    tailPasses passes channel = true := by
  rw [tailPasses,empty]
  rfl

theorem flushKeys_sends (keys : List Str) {channels : Channels}
    (pass : ∀ key ∈ keys, tailPasses passes (channels.get key) = true) :
    Sends Kind (flushKeys language keys channels) := by
  induction keys generalizing channels with
  | nil =>
    rw [flushKeys]
    exact sends_nothing Kind
  | cons key keys ih =>
    rw [flushKeys]
    apply sends_after Kind (flushChannel_sends language passing own key
      (pass key List.mem_cons_self))
    intro _
    apply ih
    intro other member
    exact kept_flushed language (fun _ => tailPasses_empty) key other
      (pass other (List.mem_cons_of_mem _ member))

theorem flushAll_sends {channels : Channels} (pass : tailsPass passes channels = true) :
    Sends Kind (flushAll language channels) := by
  rw [flushAll]
  apply flushKeys_sends language passing own
  intro key member
  rw [tailsPass,List.all_eq_true] at pass
  apply pass key
  rw [List.mem_cons] at member ⊢
  exact member.imp_right List.mem_mergeSort.mp

omit own in
/-- What feeding the places sends has the shape of the payload without its located texts, and beside its leaves only
texts that redactors returned. -/
theorem feedLocated_sends (payload : Value) (name : Option Str) (places : List Located)
    {value updated : Value} {released : Bool} {channels before : Channels}
    (same : ∀ key, (channels.get key).redactor = (before.get key).redactor)
    (returned : ∀ returned ∈ (feedLocated language payload name places updated released channels).returned, Kind returned.2) (agrees : Agrees Kind value updated)
    (pass : released = true ∨ releases language places before = true →
      leavesPass passes (erased places value) = true) :
    ∀ emission ∈ (feedLocated language payload name places updated released channels).emitted,
      KindSent Kind emission := by
  induction places generalizing value updated released channels before with
  | nil =>
    rw [feedLocated]
    cases released with
    | true =>
      exact List.forall_mem_singleton.mpr
        (Library.Json.agrees_leaves agrees (leavesPass_some passing (pass (Or.inl rfl))))
    | false => exact List.forall_mem_nil _
  | cons place places ih =>
    rw [feedLocated] at returned ⊢
    rw [releases,← same place.key] at pass
    generalize (channels.get place.key).redactor.feed language.options place.text =
      fed at pass returned ⊢
    cases replaced : replaceAt place.path updated fed.2 with
    | none => exact List.forall_mem_nil _
    | some updated' =>
      simp only [replaced] at returned ⊢
      obtain ⟨text,returned⟩ := List.forall_mem_cons.mp returned
      obtain ⟨next,rest,agrees'⟩ := agrees_replace agrees text replaced
      rw [erased,rest,Option.bind_some] at pass
      apply @ih next updated' (released || !fed.2.isEmpty) _
        (before.set place.key {before.get place.key with redactor := fed.1})
        _ returned agrees'
      · intro some_
        apply pass
        rw [Bool.or_eq_true] at some_ ⊢
        rw [← or_assoc]
        exact some_
      · intro key
        by_cases here : key = place.key
        · rw [here,Channels.get_set,Channels.get_set]
        · rw [Channels.get_set_other _ _ here,Channels.get_set_other _ _ here,same]

theorem handle_sends {event : SSEEvent} {channels : Channels}
    (scrubbed : ∀ original ∈ handed language event, Kind (redactText language.options original))
    (calm : guarded language passes event channels = true) :
    Sends Kind (handle language .default event channels) := by
  rw [guarded] at calm
  rw [handed] at scrubbed
  rw [handle]
  cases parsed : eventJson language.format event with
  | none =>
    rw [parsed] at scrubbed
    refine sends_one Kind fun _ text member => ?_
    rw [sentLeaves,Body.payload,List.mem_singleton,Value.str.injEq] at member
    rw [member]
    exact scrubbed event.data List.mem_cons_self
  | some payload =>
    rw [parsed] at calm scrubbed
    simp only at calm scrubbed ⊢
    cases thinking : isThinking payload with
    | none => exact sends_nothing Kind
    | some thought =>
      rw [thinking] at calm scrubbed
      cases thought with
      | true => exact sends_nothing Kind
      | false =>
        simp only [true_and] at calm scrubbed ⊢
        split_ifs at calm scrubbed ⊢ with unlocated
        · have leavesSent : KindSent Kind ⟨event.event,
            .json (redactLeaves language.options payload)⟩ := by
            intro text member
            simp only [sentLeaves,Body.payload] at member
            rw [App.leaves_redactLeaves] at member
            obtain ⟨leaf,listed,same⟩ := List.mem_map.mp member
            cases leaf with
            | str original =>
              rw [redactLeaves,Value.str.injEq] at same
              rw [← same]
              exact scrubbed original (List.mem_filterMap.mpr ⟨_,listed,rfl⟩)
            | _ => simp only [redactLeaves] at same; contradiction
          cases ends_ : endsBlock event payload with
          | none => exact sends_nothing Kind
          | some stops =>
            cases stops with
            | false => exact sends_one Kind fun _ => leavesSent
            | true =>
              rw [ends_] at calm
              have flushed := flushAll_sends language passing own (by simpa using calm)
              exact sends_after Kind flushed fun _ => sends_one Kind fun _ => leavesSent
        · intro returned
          apply @feedLocated_sends language _ _ passing payload event.event _ payload payload false
            channels channels
            (fun _ => rfl) returned (.same payload)
          intro some_
          rw [some_.resolve_left Bool.false_ne_true] at calm
          exact calm

omit passing in
private theorem error_sent : KindSent Kind errorEvent := by
  intro text member
  simp only [sentLeaves,errorEvent,Body.payload,leaves,Library.Json.leavesFields,List.append_nil,
    List.mem_append,List.mem_singleton,Value.str.injEq] at member
  rcases member with rfl | rfl | rfl <;> exact own _ (by simp [ownWords])

/-- Every string of a guarded run is of a kind to which belong those that pass, the transformer's own, and those that
redaction returned. -/
theorem sent_kind (events : List SSEEvent) (brokenOff : Bool)
    (calm : guardedRun language passes events .new = true)
    (scrubbed : ∀ event ∈ events, ∀ original ∈ handed language event,
      Kind (redactText language.options original)) :
    Sends Kind (redactSseStream language .default events brokenOff) := by
  have handled : Sends Kind (handleAll language .default events .new) ∧
      tailsPass passes (handleAll language .default events .new).channels = true := by
    apply @handleAll_rule language .default _ _ _ (fun _ => True) _ _ _ events _ .new trivial calm
    · exact fun _ _ => sends_nothing Kind
    · exact fun first next => sends_after Kind
    · exact fun _ _ => trivial
    · exact fun event member channels _ => handle_sends language passing own (scrubbed event member)
  have flushed := flushAll_sends language passing own handled.2
  intro returned
  obtain ⟨early,late⟩ := List.forall_mem_append.mp returned
  intro emission member
  rw [redactSseStream] at member
  simp only [List.mem_append] at member
  rcases member with (before | tail) | closing
  · exact handled.1 early emission before
  · exact flushed late emission tail
  · split_ifs at closing
    · rw [List.mem_singleton.mp closing]
      exact error_sent own
    · contradiction

end Passing

def ReturnsFree (outcome : Outcome) : Prop :=
  ∀ returned ∈ outcome.returned, NumberFree language.classes returned.2

theorem returnsFree_after {first : Outcome} {next : Channels → Outcome}
    (before : ReturnsFree language first)
    (later : first.raised = false → ReturnsFree language (next first.channels)) :
    ReturnsFree language (first.after next) := by
  rw [Outcome.after]
  cases raised : first.raised with
  | true => exact before
  | false =>
    rw [if_neg Bool.false_ne_true]
    exact List.forall_mem_append.mpr ⟨before,later raised⟩

theorem flushKeys_free (keys : List Str) (channels : Channels) :
    ReturnsFree language (flushKeys language keys channels) := by
  induction keys generalizing channels with
  | nil => exact List.forall_mem_nil _
  | cons key keys ih =>
    have text : NumberFree language.classes
      ((channels.get key).redactor.flush language.options).2 :=
      flush_free language.classes (channels.get key).redactor
    rw [flushKeys]
    apply returnsFree_after language
    · simpa only [ReturnsFree,flushChannel_returned,List.forall_mem_singleton] using text
    · exact fun _ => ih _

theorem feedLocated_free (payload : Value) (name : Option Str) (places : List Located)
    (updated : Value) (released : Bool) (channels : Channels) :
    ReturnsFree language (feedLocated language payload name places updated released channels) := by
  induction places generalizing updated released channels with
  | nil => exact List.forall_mem_nil _
  | cons place places ih =>
    have text := feed_free language.classes (channels.get place.key).redactor place.text
    rw [feedLocated]
    cases replaceAt place.path updated ((channels.get place.key).redactor.feed language.options
      place.text).2 with
    | none => exact List.forall_mem_singleton.mpr text
    | some updated => exact List.forall_mem_cons.mpr ⟨text,ih _ _ _⟩

private theorem returnsFree_nothing {channels : Channels} {emitted : List Emission}
    {raised : Bool} : ReturnsFree language ⟨channels,emitted,[],raised⟩ :=
  List.forall_mem_nil _

theorem handle_free (event : SSEEvent) (channels : Channels) :
    ReturnsFree language (handle language .default event channels) := by
  rw [handle]
  split
  · exact returnsFree_nothing language
  · rename_i payload parsed
    split
    · exact returnsFree_nothing language
    · exact returnsFree_nothing language
    · split_ifs
      · split
        · exact returnsFree_nothing language
        · exact returnsFree_after language (flushKeys_free language _ channels) fun _ =>
            returnsFree_nothing language
        · exact returnsFree_nothing language
      · exact feedLocated_free language payload event.event _ payload false channels

theorem handleAll_free (events : List SSEEvent) (channels : Channels) :
    ReturnsFree language (handleAll language .default events channels) := by
  induction events generalizing channels with
  | nil => exact List.forall_mem_nil _
  | cons event events ih =>
    exact returnsFree_after language (handle_free language event channels) fun _ => ih _

theorem stream_free (events : List SSEEvent) (brokenOff : Bool) :
    ReturnsFree language (redactSseStream language .default events brokenOff) :=
  List.forall_mem_append.mpr ⟨handleAll_free language events .new,flushKeys_free language _ _⟩

theorem ownWords_free : ∀ text ∈ ownWords, NumberFree language.classes text := by
  intro text member
  simp only [ownWords,List.mem_cons,List.not_mem_nil,or_false] at member
  rcases member with rfl | rfl | rfl | rfl | rfl <;> exact free_of_hyphens _ (by decide)

/-- In a run whose recognised events have no strings beside their located texts, every string of an event that is sent
was returned by redaction, and has no social security number in it. For the latter alone it is enough that the strings
beside the located texts have none. -/
theorem sent_redacted (events : List SSEEvent) (brokenOff : Bool) :
    (bareRun language events = true →
      ∀ emission ∈ (redactSseStream language .default events brokenOff).emitted, ∀ text,
        .str text ∈ sentLeaves emission →
        search (Patterns.ssnExpression language.classes) text 0 = none ∧
          Redacted language events (redactSseStream language .default events brokenOff) text) ∧
    (numberlessRun language events = true →
      ∀ emission ∈ (redactSseStream language .default events brokenOff).emitted, ∀ text,
        .str text ∈ sentLeaves emission →
        search (Patterns.ssnExpression language.classes) text 0 = none) := by
  have returned := stream_free language events brokenOff
  have scrubbed : ∀ event ∈ events, ∀ original ∈ handed language event,
      NumberFree language.classes (redactText language.options original) :=
    fun _ _ original _ => redactText_free language.classes original
  constructor
  · intro bare emission member text sent
    have none_ (Kind : Str → Prop) : ∀ text, (fun _ : Str => false) text = true → Kind text :=
      fun _ never => absurd never Bool.false_ne_true
    constructor
    · exact sent_kind language (none_ _) (ownWords_free language) events brokenOff bare scrubbed
        returned emission member text sent
    · refine @sent_kind language (Redacted language events _) _ (none_ _) ?_ events brokenOff bare
        ?_ ?_ emission member text sent
      · exact fun own listed => Or.inr (Or.inr listed)
      · exact fun event listed original given => Or.inr (Or.inl ⟨event,listed,original,given,rfl⟩)
      · exact fun pair listed => Or.inl ⟨pair.1,listed⟩
  · intro numberless
    exact sent_kind language (fun _ => of_decide_eq_true) (ownWords_free language) events brokenOff
      numberless scrubbed returned

private theorem number_sent {emitted : List Emission} (found : emitted.all (fun emission =>
    stringsPass (fun text => decide (NumberFree language.classes text)) (sentLeaves emission)) =
      false) :
    ∃ emission ∈ emitted, ∃ text, .str text ∈ sentLeaves emission ∧
    search (Patterns.ssnExpression language.classes) text 0 ≠ none := by
  rw [List.all_eq_false] at found
  obtain ⟨emission,member,open_⟩ := found
  rw [Bool.not_eq_true,stringsPass,List.all_eq_false] at open_
  obtain ⟨text,among,numbered⟩ := open_
  obtain ⟨leaf,listed,same⟩ := List.mem_filterMap.mp among
  cases leaf with
  | str other =>
    rw [← Option.some.inj same] at numbered
    exact ⟨emission,member,other,listed,fun free => numbered (decide_eq_true free)⟩
  | _ => cases same

end Runs

/-- A number in two pieces of a choice, a last piece that is no JSON, and nothing beside them. -/
def bareNumber : List SSEEvent :=
  [⟨none,lit "\x7b\"choices\":[\x7b\"delta\":\x7b\"content\":\"it is 123-45-\"\x7d\x7d]\x7d"⟩,
    ⟨none,lit "\x7b\"choices\":[\x7b\"delta\":\x7b\"content\":\"6789 yes\"\x7d\x7d]\x7d"⟩,
      ⟨none,lit "[DONE]"⟩]

theorem sent_redacted_bare : (redactSseStream .ascii .default bareNumber false).emitted ≠ [] ∧
    ∀ emission ∈ (redactSseStream .ascii .default bareNumber false).emitted, ∀ text,
      .str text ∈ sentLeaves emission →
      search (Patterns.ssnExpression Library.Unicode.asciiClasses) text 0 = none ∧
        Redacted .ascii bareNumber (redactSseStream .ascii .default bareNumber false) text :=
  ⟨by decide +kernel,(sent_redacted .ascii bareNumber false).1 (by decide +kernel)⟩

/-- A field beside the delta is sent as it came. -/
def annotatedDelta : SSEEvent :=
  ⟨none,lit "\x7b\"delta\":\x7b\"type\":\"text_delta\",\"text\":\"hi \"\x7d,\"note\":\"123-45-6789\"\x7d"⟩

/-- The tail of the first choice is sent with the text of the second as it came. -/
def numberBesideTail : SSEEvent :=
  ⟨none,lit "\x7b\"choices\":[\x7b\"delta\":\x7b\"content\":\"hello 123-45-\"\x7d\x7d,\x7b\"delta\":\x7b\"content\":\"123-45-6789 \"\x7d\x7d]\x7d"⟩

theorem number_relayed :
    (∃ emission ∈ (redactSseStream .ascii .default [annotatedDelta] false).emitted, ∃ text,
      .str text ∈ sentLeaves emission ∧
        search (Patterns.ssnExpression Library.Unicode.asciiClasses) text 0 ≠ none) ∧
      ∃ emission ∈ (redactSseStream .ascii .default [numberBesideTail] false).emitted, ∃ text,
        .str text ∈ sentLeaves emission ∧
        search (Patterns.ssnExpression Library.Unicode.asciiClasses) text 0 ≠ none := by
  constructor <;> apply number_sent Language.ascii <;> decide +kernel

end QuilrMcp.Guardrail.LeafSafety
