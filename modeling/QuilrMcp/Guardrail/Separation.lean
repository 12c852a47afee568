import QuilrMcp.Guardrail.Delivery

/-! Logical streams beside each other. A redactor answers by what it holds and whether it suppresses;
a run acts on one channel as the events do that the channel sees, and an event that it does not see
can be taken out. -/
namespace QuilrMcp.Guardrail.Separation
open Library.Text
open Library.Json (Value)
open Library.Dict (assign lookup_assign lookup_assign_other)
open Redactor
open Sse (SSEEvent)
open EventStream
open Located
open Delivery

section Redactors
variable (options : Options)

def Alike (first second : StreamRedactor) : Prop :=
  first.buffer = second.buffer ∧ first.suppressing = second.suppressing

theorem alike_refl (self : StreamRedactor) : Alike self self := ⟨rfl,rfl⟩

theorem alike_trans {first second third : StreamRedactor} (left : Alike first second)
    (right : Alike second third) : Alike first third :=
  ⟨left.1.trans right.1,left.2.trans right.2⟩

theorem alike_symm {first second : StreamRedactor} (alike : Alike first second) :
    Alike second first := ⟨alike.1.symm,alike.2.symm⟩

theorem absorb_alike {first second : StreamRedactor} (alike : Alike first second) (text : Str) :
    (first.absorb options text).2 = (second.absorb options text).2 ∧
      Alike (first.absorb options text).1 (second.absorb options text).1 := by
  rw [StreamRedactor.absorb,StreamRedactor.absorb,alike.1,alike.2]
  generalize redact options.placeholder true options.patterns (second.buffer ++ text) = redacted
  simp only
  split_ifs
  · exact ⟨rfl,rfl,rfl⟩
  · exact ⟨rfl,rfl,rfl⟩

private theorem dropped_alike {first second : StreamRedactor} (alike : Alike first second)
    (text : Str) :
    (first.dropSuppressedPrefix options text).2 = (second.dropSuppressedPrefix options text).2 ∧
      Alike (first.dropSuppressedPrefix options text).1
        (second.dropSuppressedPrefix options text).1 := by
  rw [StreamRedactor.dropSuppressedPrefix,StreamRedactor.dropSuppressedPrefix]
  simp only
  split_ifs
  · exact ⟨rfl,alike⟩
  · exact ⟨rfl,alike.1,rfl⟩

theorem feed_alike {first second : StreamRedactor} (alike : Alike first second) (text : Str) :
    (first.feed options text).2 = (second.feed options text).2 ∧
    Alike (first.feed options text).1 (second.feed options text).1 := by
  obtain ⟨buffer,suppressing,stats⟩ := first
  obtain ⟨_,_,stats'⟩ := second
  obtain ⟨rfl,rfl⟩ : buffer = _ ∧ suppressing = _ := alike
  rw [StreamRedactor.feed,StreamRedactor.feed]
  split_ifs with nothing
  · exact ⟨rfl,rfl,rfl⟩
  · have counted (stats stats' : RedactionStats) : Alike ⟨buffer,suppressing,stats⟩ ⟨buffer,
      suppressing,stats'⟩ := ⟨rfl,rfl⟩
    obtain ⟨same,next⟩ :=
      dropped_alike options (counted {stats with charactersIn := stats.charactersIn + text.length}
      {stats' with charactersIn := stats'.charactersIn + text.length}) text
    simp only [same]
    split_ifs
    · exact ⟨same,next⟩
    · exact absorb_alike options next _
    · exact absorb_alike options (counted _ _) _

theorem feedAll_alike {first second : StreamRedactor} (alike : Alike first second)
    (texts : List Str) :
    (first.feedAll options texts).2 = (second.feedAll options texts).2 ∧
      Alike (first.feedAll options texts).1 (second.feedAll options texts).1 := by
  induction texts generalizing first second with
  | nil => exact ⟨rfl,alike⟩
  | cons text texts ih =>
    obtain ⟨same,next⟩ := feed_alike options alike text
    obtain ⟨later,last⟩ := ih next
    rw [StreamRedactor.feedAll,StreamRedactor.feedAll]
    exact ⟨by rw [same,later],last⟩

theorem flush_alike {first second : StreamRedactor} (alike : Alike first second) :
    (first.flush options).2 = (second.flush options).2 ∧
    Alike (first.flush options).1 (second.flush options).1 := by
  rw [Passes.flush_out,Passes.flush_out,alike.1]
  exact ⟨rfl,rfl,rfl⟩

/-- Nothing is held and nothing is suppressed. -/
def idle (self : StreamRedactor) : Bool := self.buffer.isEmpty && !self.suppressing

theorem idle_flushed (self : StreamRedactor) : idle (self.flush options).1 = true := rfl

theorem idle_alike {first second : StreamRedactor} (still : idle first = true)
    (still' : idle second = true) : Alike first second := by
  rw [idle,Bool.and_eq_true,List.isEmpty_iff,Bool.not_eq_true'] at still still'
  exact ⟨still.1.trans still'.1.symm,still.2.trans still'.2.symm⟩

end Redactors

/-- A flush of what is idle gives nothing and changes nothing. -/
theorem flush_idle (classes : Library.Unicode.Classes) {self : StreamRedactor}
    (still : idle self = true) :
    (self.flush (Options.default classes)).2 = [] ∧
    Alike (self.flush (Options.default classes)).1 self := by
  refine ⟨?_,idle_alike (idle_flushed _ self) still⟩
  rw [idle,Bool.and_eq_true,List.isEmpty_iff] at still
  exact (Conservation.flush_nil_iff classes self).mpr still.1

inductive View
  | feeds (texts : List Str)
  | flush
  | nothing

/-- The redactor after the view, and what it returned. -/
def View.act (options : Options) : View → StreamRedactor → StreamRedactor × Str
  | .feeds texts, self => self.feedAll options texts
  | .flush, self => self.flush options
  | .nothing, self => (self,[])

theorem act_alike (options : Options) {first second : StreamRedactor} (alike : Alike first second)
    (view : View) :
    (view.act options first).2 = (view.act options second).2 ∧
    Alike (view.act options first).1 (view.act options second).1 := by
  cases view with
  | feeds texts => exact feedAll_alike options alike texts
  | flush => exact flush_alike options alike
  | nothing => exact ⟨rfl,alike⟩

section Views
variable (language : Language) (policy : StreamPolicy) (key : Str)

def texts (places : List Located) : List Str :=
  (places.filter (fun place => place.key == key)).map Located.text

def view (event : SSEEvent) : View :=
  match eventJson language.format event with
  | none => .nothing
  | some payload =>
    if isThinking payload = some false then
      if (locateTexts language.tables payload).isEmpty then
        if endsBlock event payload = some true then .flush else .nothing
      else .feeds (texts key (locateTexts language.tables payload))
    else .nothing

/-- Whether handling the event raises, whatever the channels are. -/
def halts (event : SSEEvent) : Bool :=
  match eventJson language.format event with
  | none => false
  | some payload =>
    match isThinking payload with
    | none => true
    | some true => false
    | some false => (locateTexts language.tables payload).isEmpty && endsBlock event payload == none

/-- A step did to the channel's redactor what the view says. -/
structure Answers (view : View) (before : Channels) (outcome : Outcome) : Prop where
  returned : returnedText key outcome.returned =
    (view.act language.options (before.get key).redactor).2
  after : Alike (outcome.channels.get key).redactor (view.act language.options
    (before.get key).redactor).1

variable {language} {key}

theorem feedLocated_answers (payload : Value) (name : Option Str) (places : List Located)
    {updated : Value} {released : Bool} {channels : Channels}
    (whole : (feedLocated language payload name places updated released channels).raised = false) :
    Answers language key (.feeds (texts key places)) channels
      (feedLocated language payload name places updated released channels) := by
  induction places generalizing updated released channels with
  | nil =>
    rw [feedLocated]
    exact ⟨rfl,alike_refl _⟩
  | cons place places ih =>
    rw [feedLocated] at whole ⊢
    generalize fed : (channels.get place.key).redactor.feed language.options place.text =
      result at whole ⊢
    cases replaced : replaceAt place.path updated result.2 with
    | none => rw [replaced] at whole; contradiction
    | some updated' =>
      rw [replaced] at whole
      have later := ih whole
      simp only
      by_cases same : place.key = key
      · subst same
        have first : texts place.key (place::places) = place.text::texts place.key places := by
          simp [texts]
        have here : ((channels.set place.key ⟨result.1,some ⟨payload,place.path,name⟩⟩).get
          place.key).redactor = result.1 := by
          rw [Channels.get_set]
        constructor
        · rw [returnedText_cons,if_pos rfl,later.returned,here,first,View.act,View.act,
            StreamRedactor.feedAll,fed]
        · have after := later.after
          rw [here,View.act] at after
          rw [first,View.act,StreamRedactor.feedAll,fed]
          exact after
      · have other : texts key (place::places) = texts key places := by simp [texts,same]
        have here : (channels.set place.key ⟨result.1,some ⟨payload,place.path,name⟩⟩).get key =
          channels.get key :=
          Channels.get_set_other _ _ (Ne.symm same)
        constructor
        · rw [returnedText_cons,if_neg same,later.returned,here,other,List.nil_append]
        · have after := later.after
          rw [here] at after
          rw [other]
          exact after

private theorem flushChannel_answers (channels : Channels) (other : Str) :
    Answers language key (if other = key then .flush else .nothing) channels
      (flushChannel language channels other) := by
  by_cases same : other = key
  · subst same
    rw [if_pos rfl]
    constructor
    · rw [flushChannel_returned,returnedText_cons,if_pos rfl,returnedText_nil,
        List.append_nil,View.act]
    · rw [flushChannel_channels,Channels.get_set,View.act]
      exact alike_refl _
  · rw [if_neg same]
    constructor
    · rw [flushChannel_returned,returnedText_cons,if_neg same,returnedText_nil,
        List.append_nil,View.act]
    · rw [flushChannel_channels,Channels.get_set_other _ _ (Ne.symm same),View.act]
      exact alike_refl _

private theorem answers_then {first second : View} {channels : Channels} {outcome : Outcome}
    {next : Channels → Outcome} (whole : outcome.raised = false)
    (before : Answers language key first channels outcome)
    (later : Answers language key second outcome.channels (next outcome.channels))
    (still : (second.act language.options (outcome.channels.get key).redactor).2 = [])
    (stays : Alike (second.act language.options (outcome.channels.get key).redactor).1
      (outcome.channels.get key).redactor) :
    Answers language key first channels (outcome.after next) := by
  rw [Outcome.after_whole whole]
  constructor
  · rw [returnedText_append,before.returned,later.returned,still,List.append_nil]
  · exact alike_trans later.after (alike_trans stays before.after)

theorem flushKeys_answers {Kind : Value → Prop} (keys : List Str) {channels : Channels}
    (ready : Ready language Kind channels) :
    Answers language key (if key ∈ keys then .flush else .nothing) channels
      (flushKeys language keys channels) := by
  induction keys generalizing channels with
  | nil =>
    rw [flushKeys,if_neg List.not_mem_nil]
    exact ⟨rfl,alike_refl _⟩
  | cons other keys ih =>
    have whole := flushChannel_whole language ready other
    have first := @flushChannel_answers language key channels other
    have later := ih (ready_flushed language ready other)
    rw [flushKeys]
    by_cases same : other = key
    · subst same
      rw [if_pos List.mem_cons_self]
      rw [if_pos rfl] at first
      have still : idle ((flushChannel language channels other).channels.get other).redactor =
        true := by
        rw [flushChannel_channels,Channels.get_set]
        rfl
      obtain ⟨empty,stays⟩ := flush_idle language.classes still
      apply answers_then whole first later
      · split_ifs
        · exact empty
        · rfl
      · split_ifs
        · exact stays
        · exact alike_refl _
    · rw [if_neg same] at first
      have here : (key ∈ other::keys) = (key ∈ keys) := by
        rw [List.mem_cons,eq_iff_iff]
        exact ⟨fun member => member.resolve_left (Ne.symm same),Or.inr⟩
      have unchanged : (flushChannel language channels other).channels.get key =
        channels.get key := by
        rw [flushChannel_channels,Channels.get_set_other _ _ (Ne.symm same)]
      rw [Outcome.after_whole whole]
      simp only [here]
      constructor
      · rw [returnedText_append,first.returned,later.returned,View.act,List.nil_append,unchanged]
      · rw [← unchanged]
        exact later.after

/-- All are flushed: a key that is not there has a fresh redactor. -/
theorem flushAll_answers {Kind : Value → Prop} {channels : Channels}
    (ready : Ready language Kind channels) :
    Answers language key .flush channels (flushAll language channels) ∧
    (flushAll language channels).raised = false := by
  rw [flushAll]
  refine ⟨?_,flushKeys_whole language _ ready⟩
  have answers := @flushKeys_answers language key Kind
    (mainText::(channels.others.map Prod.fst).mergeSort (fun a b => decide (a ≤ b))) channels ready
  split_ifs at answers with listed
  · exact answers
  · have absent : channels.get key = ⟨.new,none⟩ := by
      rw [List.mem_cons,not_or,List.mem_mergeSort] at listed
      rw [Channels.get,if_neg listed.1,List.lookup_eq_none_iff.mpr,Option.getD_none]
      intro field member
      rw [bne_iff_ne]
      exact fun same => listed.2 (same ▸ List.mem_map_of_mem member)
    obtain ⟨empty,stays⟩ := flush_idle language.classes (rfl : idle .new = true)
    constructor
    · rw [answers.returned,absent]
      exact empty.symm
    · have after := answers.after
      rw [absent] at after ⊢
      exact alike_trans after (alike_symm stays)

private theorem answers_still {channels : Channels} {emitted : List Emission} {raised : Bool} :
    Answers language key .nothing channels ⟨channels,emitted,[],raised⟩ := ⟨rfl,alike_refl _⟩

private theorem unrecognised_still (event : SSEEvent) (payload : Value) (channels : Channels) :
    (unrecognised language policy event payload channels).channels = channels ∧
      (unrecognised language policy event payload channels).returned = [] ∧
      (unrecognised language policy event payload channels).raised = false := by
  rw [unrecognised]
  cases policy.unknownSchema <;> exact ⟨rfl,rfl,rfl⟩

private theorem unrecognised_answers (event : SSEEvent) (payload : Value) (channels : Channels) :
    Answers language key .nothing channels
      (unrecognised language policy event payload channels) := by
  obtain ⟨same,nothing,_⟩ := @unrecognised_still language policy event payload channels
  constructor
  · rw [nothing]
    rfl
  · rw [same]
    exact alike_refl _

/-- Handling an event does to a channel what the channel sees of it. -/
theorem handle_answers {Kind : Value → Prop} {event : SSEEvent} {channels : Channels}
    (ready : Ready language Kind channels)
    (calm : steady language policy key event channels = true) :
    Answers language key (view language key event) channels
      (handle language policy event channels) ∧
      (handle language policy event channels).raised = halts language event := by
  rw [steady] at calm
  rw [handle,view,halts]
  cases parsed : eventJson language.format event with
  | none => exact ⟨answers_still,rfl⟩
  | some payload =>
    rw [parsed] at calm
    simp only at calm ⊢
    cases thinking : isThinking payload with
    | none => exact ⟨answers_still,rfl⟩
    | some thought =>
      rw [thinking] at calm
      cases thought with
      | true =>
        simp only
        cases policy.thinking <;> exact ⟨answers_still,rfl⟩
      | false =>
        simp only [if_true] at calm ⊢
        cases unlocated : (locateTexts language.tables payload).isEmpty with
        | true =>
          simp only [if_true,Bool.true_and]
          cases ends_ : endsBlock event payload with
          | none => exact ⟨answers_still,rfl⟩
          | some stops =>
            cases stops with
            | false => exact ⟨unrecognised_answers policy event payload channels,
                (unrecognised_still policy event payload channels).2.2⟩
            | true =>
              obtain ⟨flushed,whole⟩ := @flushAll_answers language key Kind channels ready
              refine ⟨?_,?_⟩
              · exact answers_then whole flushed (unrecognised_answers policy event payload _) rfl
                  (alike_refl _)
              · rw [Outcome.after_raised whole]
                exact (unrecognised_still policy event payload _).2.2
        | false =>
          rw [unlocated,if_neg Bool.false_ne_true] at calm
          have placed := of_decide_eq_true calm
          have fed := @feedLocated_delivers language (fun _ => True) (fun _ _ _ _ _ _ _ _ =>
            trivial) payload event.event placed trivial
            (locateTexts language.tables payload) [] payload false channels
            (ready_any language ready) (fun _ member => member) placed trivial rfl
            (fun _ => List.forall_mem_nil _) key
          simp only [Bool.false_and,Bool.false_eq_true,if_false]
          exact ⟨feedLocated_answers payload event.event _ fed.2.2.2,fed.2.2.2⟩

end Views

/-- A content block and the field that its deltas fill, or a choice. -/
inductive Logical
  | block (index kind : Str)
  | choice (index : Option Str)
  deriving DecidableEq

def blockIndex (fields : List (Str × Value)) : Str :=
  Library.Json.dumps ⟨false,true⟩ ((fields.lookup (lit "index")).getD (.int 0))

def choiceStream : Value → Option Logical
  | .dict choice =>
    some (.choice ((choice.lookup (lit "index")).map (Library.Json.dumps ⟨false,true⟩)))
  | _ => none

/-- The stream whose text stands at a path. -/
def owner (payload : Value) (path : Path) : Option Logical :=
  match payload with
  | .dict fields =>
    match path with
    | [.field _,.field kind] => some (.block (blockIndex fields) kind)
    | .field _::.item position::_ => ((choicesOf fields)[position]?).bind choiceStream
    | _ => none
  | _ => none

private theorem owner_same {fields fields' : List (Str × Value)}
    (index : blockIndex fields' = blockIndex fields)
    (choices : ∀ position : Nat, ((choicesOf fields')[position]?).bind choiceStream =
      ((choicesOf fields)[position]?).bind choiceStream)
    (path : Path) : owner (.dict fields') path = owner (.dict fields) path := by
  simp only [owner]
  split
  · rw [index]
  · exact choices _
  · rfl

private theorem index_apart : lit "index" ≠ lit "delta" ∧ lit "index" ≠ lit "message" ∧
    lit "index" ≠ lit "choices" ∧
    lit "choices" ≠ lit "delta" := by decide

/-- A rewritten text stays with its stream, and so do the others. -/
theorem owner_replace {tables : Library.Unicode.Tables} {payload payload' : Value}
    {place : Located} {safe : Str} (member : place ∈ locateTexts tables payload)
    (replaced : replaceAt place.path payload safe = some payload') (path : Path) :
    owner payload' path = owner payload path := by
  cases payload with
  | dict fields =>
    rcases located_path tables member with ⟨name,shape⟩ | ⟨i,name,shape,known⟩
    · rw [shape] at replaced
      simp only [replaceAt,Option.bind_eq_bind,Option.bind_eq_some_iff,Option.pure_def,
        Option.some.injEq] at replaced
      obtain ⟨_,_,_,_,rfl⟩ := replaced
      apply owner_same
      · rw [blockIndex,blockIndex,lookup_assign_other _ _ _ _ index_apart.1]
      · intro position
        rw [choicesOf,choicesOf,lookup_assign_other _ _ _ _ index_apart.2.2.2]
    · rw [shape] at replaced
      simp only [replaceAt,Option.bind_eq_bind,Option.bind_eq_some_iff,Option.pure_def,
        Option.some.injEq] at replaced
      obtain ⟨value,listed,_,step,rfl⟩ := replaced
      have apart : lit "index" ≠ name := by
        rcases known with rfl | rfl
        · exact index_apart.1
        · exact index_apart.2.1
      apply owner_same
      · rw [blockIndex,blockIndex,lookup_assign_other _ _ _ _ index_apart.2.2.1]
      · intro position
        rw [choicesOf,choicesOf,lookup_assign,listed]
        cases value with
        | list items =>
          simp only [replaceAt,Option.bind_eq_bind,Option.bind_eq_some_iff,Option.pure_def,
            Option.some.injEq] at step
          obtain ⟨choice,here,choice',inside,rfl⟩ := step
          simp only
          by_cases same : i = position
          · subst same
            have bound := (List.getElem?_eq_some_iff.mp here).1
            rw [List.getElem?_set_self bound,here,Option.bind_some,Option.bind_some]
            cases choice with
            | dict choice =>
              simp only [replaceAt,Option.bind_eq_bind,Option.bind_eq_some_iff,Option.pure_def,
                Option.some.injEq] at inside
              obtain ⟨_,_,_,_,rfl⟩ := inside
              rw [choiceStream,choiceStream,lookup_assign_other _ _ _ _ apart]
            | _ => simp only [replaceAt] at inside; contradiction
          · rw [List.getElem?_set_ne same]
        | _ => simp only [replaceAt] at step; contradiction
  | _ => cases member

section Streams
variable (language : Language) (policy : StreamPolicy) (stream : Logical) (key : Str)

/-- Whether the end of a block is that of another block, for a payload that can name one. -/
def endsOther : Value → Bool
  | .dict fields =>
    match stream with
    | .block index _ => blockIndex fields != index
    | .choice _ => true
  | _ => false

/-- The event has texts of other streams only, or ends another block. -/
def elsewhere (event : SSEEvent) : Bool :=
  match eventJson language.format event with
  | none => false
  | some payload =>
    isThinking payload == some false &&
      if (locateTexts language.tables payload).isEmpty then endsBlock event payload == some true &&
        endsOther stream payload
      else (locateTexts language.tables payload).all (fun place =>
        owner payload place.path != some stream)

def without (events : List SSEEvent) : List SSEEvent :=
  events.filter (fun event => !elsewhere language stream event)

def textOf (emission : Emission) : Str :=
  match emission.body.payload with
  | some payload =>
    (((locateTexts language.tables payload).filter (fun place =>
      owner payload place.path == some stream)).map Located.text).flatten
  | none => []

/-- The text emitted for the stream. -/
def emittedText (emissions : List Emission) : Str :=
  (emissions.map (textOf language stream)).flatten

/-- The stream's texts, and no others, have the key. -/
def Keyed (payload : Value) : Prop :=
  ∀ place ∈ locateTexts language.tables payload, owner payload place.path = some stream ↔
  place.key = key

instance (payload : Value) : Decidable (Keyed language stream key payload) :=
  inferInstanceAs (Decidable (∀ place ∈ locateTexts language.tables payload, _))

def faithful (event : SSEEvent) : Bool :=
  match eventJson language.format event with
  | none => true
  | some payload => isThinking payload != some false || decide (Keyed language stream key payload)

def calm (event : SSEEvent) (channels : Channels) : Bool :=
  steady language policy key event channels && faithful language stream key event

/-- While another block ends the stream's channel holds nothing and suppresses nothing. -/
def quiet (event : SSEEvent) (channels : Channels) : Bool :=
  !elsewhere language stream event ||
    match view language key event with
    | .flush => idle (channels.get key).redactor
    | _ => true

/-- The run with everything and the run without the other streams meet their conditions. -/
def apartRun (events : List SSEEvent) : Bool :=
  meets language policy (fun event channels => calm language policy stream key event channels &&
    quiet language stream key event channels)
      (flushesAlone language key) events .new &&
    meets language policy (calm language policy stream key) (flushesAlone language key)
      (without language stream events) .new

variable {language policy stream key}

private theorem keyed_kept : Kept language (Keyed language stream key) := by
  intro payload place payload' safe placed member keyed replaced other found
  obtain ⟨payload'',replaced',located,_⟩ := replace_located language.tables placed member safe
  obtain rfl : payload' = payload'' := Option.some.inj (replaced.symm.trans replaced')
  rw [located,retext,List.mem_map] at found
  obtain ⟨original,inside,rfl⟩ := found
  rw [owner_replace member replaced]
  have known := keyed original inside
  split_ifs
  · exact known
  · exact known

private theorem textOf_known {emission : Emission}
    (known : Known language (Keyed language stream key) emission) :
    textOf language stream emission = textAt key (places language.tables emission) := by
  rw [textOf]
  rcases known with none_ | ⟨payload,carried,keyed⟩
  · rw [none_]
    rw [places] at none_
    cases carried : emission.body.payload with
    | none => rfl
    | some payload =>
      rw [carried] at none_
      simp only at none_
      simp only [none_]
      rfl
  · rw [places,carried,textAt]
    simp only
    rw [List.filter_congr]
    intro place member
    rw [Bool.eq_iff_iff,beq_iff_eq,beq_iff_eq]
    exact keyed place member

private theorem emittedText_delivered {emissions : List Emission}
    (known : ∀ emission ∈ emissions, Known language (Keyed language stream key) emission) :
    emittedText language stream emissions = delivered language.tables key emissions := by
  rw [emittedText,delivered,List.map_congr_left fun emission member =>
    textOf_known (known emission member)]

private theorem handle_calm {event : SSEEvent} {channels : Channels}
    (ready : Ready language (Keyed language stream key) channels)
    (met : calm language policy stream key event channels = true) :
    Delivers language (Keyed language stream key) key (handle language policy event channels) := by
  rw [calm,Bool.and_eq_true] at met
  apply handle_delivers language policy keyed_kept ready key met.1
  intro payload parsed thinking _
  have known := met.2
  rw [faithful,parsed] at known
  simpa [thinking] using known

private theorem elsewhere_silent {event : SSEEvent} {channels : Channels}
    (out : elsewhere language stream event = true)
    (known : faithful language stream key event = true)
    (still : quiet language stream key event channels = true) :
    ((view language key event).act language.options (channels.get key).redactor).2 = [] ∧
      Alike ((view language key event).act language.options (channels.get key).redactor).1
        (channels.get key).redactor ∧
      halts language event = false := by
  rw [quiet,out,Bool.not_true,Bool.false_or] at still
  rw [elsewhere] at out
  rw [faithful] at known
  rw [halts]
  rw [view] at still ⊢
  cases parsed : eventJson language.format event with
  | none => rw [parsed] at out; contradiction
  | some payload =>
    rw [parsed] at out known still
    simp only [Bool.and_eq_true,beq_iff_eq] at out known still ⊢
    obtain ⟨thinking,out⟩ := out
    simp only [thinking,if_true,bne_self_eq_false,Bool.false_or,decide_eq_true_eq] at known still ⊢
    cases unlocated : (locateTexts language.tables payload).isEmpty with
    | true =>
      simp only [unlocated,if_true,Bool.and_eq_true,beq_iff_eq] at out still ⊢
      simp only [out.1,if_true] at still ⊢
      obtain ⟨nothing,same⟩ := flush_idle language.classes still
      exact ⟨nothing,same,rfl⟩
    | false =>
      simp only [unlocated,Bool.false_eq_true,if_false,List.all_eq_true,bne_iff_ne] at out ⊢
      have silent : texts key (locateTexts language.tables payload) = [] := by
        rw [texts,List.map_eq_nil_iff,List.filter_eq_nil_iff]
        intro place member same
        exact out place member ((known place member).mpr (beq_iff_eq.mp same))
      rw [silent]
      exact ⟨rfl,alike_refl _,rfl⟩

/-- Both runs in step: what the channel returned is the same, and its redactors stay alike. -/
theorem run_apart {closing : Channels → Bool} (events : List SSEEvent) {full less : Channels}
    (ready : Ready language (Keyed language stream key) full)
    (ready' : Ready language (Keyed language stream key) less)
    (alike : Alike (full.get key).redactor (less.get key).redactor)
    (met : meets language policy (fun event channels =>
      calm language policy stream key event channels &&
      quiet language stream key event channels) closing events full = true)
    (met' : meets language policy (calm language policy stream key) closing
      (without language stream events) less = true) :
    returnedText key (handleAll language policy events full).returned =
        returnedText key (handleAll language policy (without language stream events)
          less).returned ∧
      Alike ((handleAll language policy events full).channels.get key).redactor
        ((handleAll language policy (without language stream events) less).channels.get
          key).redactor := by
  induction events generalizing full less with
  | nil => exact ⟨rfl,alike⟩
  | cons event events ih =>
    rw [meets,Bool.and_eq_true,Bool.and_eq_true] at met
    obtain ⟨⟨kept,still⟩,later⟩ := met
    have both := kept
    rw [calm,Bool.and_eq_true] at both
    have next := (handle_calm ready kept).ready
    obtain ⟨answers,raised⟩ := handle_answers policy ready both.1
    rw [handleAll,without]
    cases out : elsewhere language stream event with
    | true =>
      obtain ⟨nothing,same,goes⟩ := elsewhere_silent out both.2 still
      rw [List.filter_cons_of_neg (by rw [out]; exact Bool.false_ne_true)]
      rw [without,List.filter_cons_of_neg (by rw [out]; exact Bool.false_ne_true)] at met'
      rw [goes] at raised
      rw [raised,if_neg Bool.false_ne_true] at later
      rw [Outcome.after_whole raised,returnedText_append,answers.returned,nothing,List.nil_append]
      exact ih next ready' (alike_trans (alike_trans answers.after same) alike) later met'
    | false =>
      rw [List.filter_cons_of_pos (by rw [out]; rfl)]
      rw [without,List.filter_cons_of_pos (by rw [out]; rfl),meets,Bool.and_eq_true] at met'
      obtain ⟨kept',later'⟩ := met'
      have both' := kept'
      rw [calm,Bool.and_eq_true] at both'
      have next' := (handle_calm ready' kept').ready
      obtain ⟨answers',raised'⟩ := handle_answers policy ready' both'.1
      obtain ⟨same,acted⟩ := act_alike language.options alike (view language key event)
      have stays := alike_trans (alike_trans answers.after acted) (alike_symm answers'.after)
      rw [handleAll]
      cases goes : halts language event with
      | true =>
        rw [goes] at raised raised'
        rw [Outcome.after,raised,if_pos rfl,Outcome.after,raised',if_pos rfl,answers.returned,
          answers'.returned,same]
        exact ⟨rfl,stays⟩
      | false =>
        rw [goes] at raised raised'
        rw [raised,if_neg Bool.false_ne_true] at later
        rw [raised',if_neg Bool.false_ne_true] at later'
        rw [Outcome.after_whole raised,Outcome.after_whole raised',returnedText_append,
          returnedText_append,answers.returned,answers'.returned,same]
        obtain ⟨rest,last⟩ := ih next next' stays later later'
        exact ⟨by rw [rest]; rfl,last⟩

private theorem stream_calm {calmer : SSEEvent → Channels → Bool} (events : List SSEEvent)
    (brokenOff : Bool) (stricter : ∀ event channels, calmer event channels = true →
      calm language policy stream key event channels = true)
    (met : meets language policy calmer (flushesAlone language key) events .new = true) :
    Delivers language (Keyed language stream key) key
      (redactSseStream language policy events brokenOff) ∧
      Ready language (Keyed language stream key)
        (handleAll language policy events .new).channels := by
  have run := @handleAll_rule language policy _ _
    (Delivers language (Keyed language stream key) key)
    (Ready language (Keyed language stream key))
    (fun _ ready => ⟨rfl,ready,List.forall_mem_nil _⟩) (fun _ _ => delivers_after language)
    (fun _ delivers => delivers.ready)
    events (fun event _ channels ready met => handle_calm ready (stricter event channels met)) .new
      (ready_start language) met
  exact ⟨stream_delivers language policy keyed_kept events brokenOff key run.1 run.2,run.1.ready⟩

private theorem returned_stream (events : List SSEEvent) (brokenOff : Bool) :
    (redactSseStream language policy events brokenOff).returned =
      (handleAll language policy events .new).returned ++
      (flushAll language (handleAll language policy events .new).channels).returned := rfl

end Streams

/-- In a run that keeps a logical stream apart, its text is the same without the events of the others. -/
theorem streams_apart (language : Language) (policy : StreamPolicy) (stream : Logical) (key : Str)
    (events : List SSEEvent) (brokenOff : Bool)
    (met : apartRun language policy stream key events = true) :
    emittedText language stream (redactSseStream language policy events brokenOff).emitted =
      emittedText language stream (redactSseStream language policy (without language stream events)
        brokenOff).emitted := by
  rw [apartRun,Bool.and_eq_true] at met
  obtain ⟨full,ready⟩ :=
    stream_calm events brokenOff (fun _ _ met => (Bool.and_eq_true _ _ ▸ met).1) met.1
  obtain ⟨less,ready'⟩ := stream_calm (without language stream events) brokenOff
    (fun _ _ met => met) met.2
  obtain ⟨same,alike⟩ := run_apart events (ready_start language) (ready_start language)
    (alike_refl _) met.1 met.2
  obtain ⟨flushed,_⟩ := @flushAll_answers language key _ _ ready
  obtain ⟨flushed',_⟩ := @flushAll_answers language key _ _ ready'
  rw [emittedText_delivered full.known,emittedText_delivered less.known,full.same,less.same,
    returned_stream,returned_stream,
    returnedText_append,returnedText_append,same,flushed.returned,flushed'.returned]
  rw [(act_alike language.options alike .flush).1]

/-- A number in two deltas of a block, with the arguments of another block between them. -/
def interleaved : List SSEEvent :=
  [⟨none,lit "\x7b\"index\":0,\"delta\":\x7b\"type\":\"text_delta\",\"text\":\"it is 123-45-\"\x7d\x7d"⟩,
    ⟨none,lit "\x7b\"index\":1,\"delta\":\x7b\"type\":\"input_json_delta\",\"partial_json\":\"[12\"\x7d\x7d"⟩,
    ⟨none,lit "\x7b\"index\":0,\"delta\":\x7b\"type\":\"text_delta\",\"text\":\"6789 yes\"\x7d\x7d"⟩]

theorem interleaved_apart :
    emittedText .ascii (.block (lit "0") (lit "text")) (redactSseStream .ascii .default interleaved
      false).emitted =
    emittedText .ascii (.block (lit "0") (lit "text"))
      (redactSseStream .ascii .default (without .ascii (.block (lit "0") (lit "text")) interleaved)
        false).emitted :=
  streams_apart .ascii .default (.block (lit "0") (lit "text")) mainText interleaved false
    (by decide +kernel)

/-- Two choices that come in chunks of their own, each at the first position. -/
def choicesInTurn : List SSEEvent :=
  [⟨none,lit "\x7b\"choices\":[\x7b\"index\":0,\"delta\":\x7b\"content\":\"my ssn is 123-45\"\x7d\x7d]\x7d"⟩,
    ⟨none,lit "\x7b\"choices\":[\x7b\"index\":1,\"delta\":\x7b\"content\":\" hello \"\x7d\x7d]\x7d"⟩,
    ⟨none,lit "\x7b\"choices\":[\x7b\"index\":0,\"delta\":\x7b\"content\":\"-6789\"\x7d\x7d]\x7d"⟩]

/-- The end of another block between two deltas. -/
def otherBlockEnds : List SSEEvent :=
  [⟨none,lit "\x7b\"index\":0,\"delta\":\x7b\"type\":\"text_delta\",\"text\":\"it is 123-45-\"\x7d\x7d"⟩,
    ⟨none,lit "\x7b\"type\":\"content_block_stop\",\"index\":1\x7d"⟩,
    ⟨none,lit "\x7b\"index\":0,\"delta\":\x7b\"type\":\"text_delta\",\"text\":\"6789 yes\"\x7d\x7d"⟩]

theorem streams_interfere :
    emittedText .ascii (.choice (some (lit "0"))) (redactSseStream .ascii .default choicesInTurn
      false).emitted ≠
        emittedText .ascii (.choice (some (lit "0")))
          (redactSseStream .ascii .default (without .ascii (.choice (some (lit "0"))) choicesInTurn)
            false).emitted ∧
      emittedText .ascii (.block (lit "0") (lit "text"))
        (redactSseStream .ascii .default otherBlockEnds false).emitted ≠
        emittedText .ascii (.block (lit "0") (lit "text"))
          (redactSseStream .ascii .default (without .ascii (.block (lit "0") (lit "text"))
            otherBlockEnds) false).emitted := by
  constructor <;> decide +kernel

end QuilrMcp.Guardrail.Separation
