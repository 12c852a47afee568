import QuilrMcp.Guardrail.Leaves
import QuilrMcp.Guardrail.Located

/-! What a channel delivers: the text at its path in the events that were sent is what its redactor
returned, where no held tail is sent with an old payload that has a text of another channel in it. -/
namespace QuilrMcp.Guardrail.Delivery
open Library.Text
open Library.Json (Value truthy)
open Redactor
open Sse (SSEEvent)
open EventStream
open Located

section Reading
variable (tables : Library.Unicode.Tables)

/-- The located texts of an event that was sent. -/
def places (emission : Emission) : List Located :=
  match emission.body.payload with
  | some payload => locateTexts tables payload
  | none => []

def textAt (key : Str) (places : List Located) : Str :=
  ((places.filter (fun place => place.key == key)).map Located.text).flatten

def delivered (key : Str) (emissions : List Emission) : Str :=
  (emissions.map (fun emission => textAt key (places tables emission))).flatten

def returnedText (key : Str) (returned : List (Str × Str)) : Str :=
  ((returned.filter (fun result => result.1 == key)).map Prod.snd).flatten

@[simp] theorem textAt_nil (key : Str) : textAt key [] = [] := rfl

theorem textAt_append (key : Str) (first second : List Located) :
    textAt key (first ++ second) = textAt key first ++ textAt key second := by
  simp [textAt]

theorem textAt_cons (key : Str) (place : Located) (rest : List Located) :
    textAt key (place::rest) = (if place.key = key then place.text else []) ++ textAt key rest := by
  rw [textAt,List.filter_cons]
  by_cases same : place.key = key
  · simp [same,textAt]
  · simp [same,textAt]

theorem textAt_empty {key : Str} {places : List Located}
    (empty : ∀ place ∈ places, place.key ≠ key ∨ place.text = []) :
    textAt key places = [] := by
  rw [textAt,List.flatten_eq_nil_iff]
  intro text member
  obtain ⟨place,found,rfl⟩ := List.mem_map.mp member
  rw [List.mem_filter,beq_iff_eq] at found
  exact (empty place found.1).resolve_left (not_not_intro found.2)

@[simp] theorem delivered_nil (key : Str) : delivered tables key [] = [] := rfl

@[simp] theorem delivered_append (key : Str) (first second : List Emission) :
    delivered tables key (first ++ second) = delivered tables key first ++
      delivered tables key second := by
  simp [delivered]

@[simp] theorem delivered_one (key : Str) (emission : Emission) :
    delivered tables key [emission] = textAt key (places tables emission) := by
  simp [delivered]

@[simp] theorem returnedText_nil (key : Str) : returnedText key [] = [] := rfl

@[simp] theorem returnedText_append (key : Str) (first second : List (Str × Str)) :
    returnedText key (first ++ second) = returnedText key first ++ returnedText key second := by
  simp [returnedText]

theorem returnedText_cons (key : Str) (result : Str × Str) (rest : List (Str × Str)) :
    returnedText key (result::rest) = (if result.1 = key then result.2 else []) ++
      returnedText key rest := by
  rw [returnedText,List.filter_cons]
  by_cases same : result.1 = key
  · simp [same,returnedText]
  · simp [same,returnedText]

end Reading

section Conditions
variable (language : Language) (policy : StreamPolicy) (key : Str)

/-- Nothing is held, or the payload that is remembered has no other text of the key. -/
def alone (channel : Channel) : Bool :=
  channel.redactor.buffer.isEmpty ||
    match channel.rebuild with
    | some rebuild => (locateTexts language.tables rebuild.payload).all (fun place =>
        place.path == rebuild.path || place.key != key || place.text.isEmpty)
    | none => true

def flushesAlone (channels : Channels) : Bool :=
  (mainText::channels.others.map Prod.fst).all (fun other =>
    alone language key (channels.get other))

/-- What an event must not do: send a thinking block that has a located text in it, name a field of a
choice that is not where the text stands, or end a block while a tail is not alone. -/
def steady (event : SSEEvent) (channels : Channels) : Bool :=
  match eventJson language.format event with
  | none => true
  | some payload =>
    match isThinking payload with
    | none => true
    | some true => policy.thinking == .drop || (locateTexts language.tables payload).isEmpty
    | some false =>
      if (locateTexts language.tables payload).isEmpty then endsBlock event payload != some true ||
        flushesAlone language key channels
      else decide (Placed payload)

def steadyRun (events : List SSEEvent) (channels : Channels) : Bool :=
  meets language policy (steady language policy key) (flushesAlone language key) events channels

end Conditions

theorem retext_at {before after : List Located} {place : Located}
    (distinct : ((before ++ place::after).map Located.path).Nodup) (safe : Str) :
    retext place.path safe (before ++ place::after) = before ++
      {place with text := safe}::after := by
  rw [List.map_append,List.map_cons,List.nodup_append,List.nodup_cons] at distinct
  obtain ⟨_,⟨later,_⟩,earlier⟩ := distinct
  have apart (other : Located) (member : other ∈ before) : other.path ≠ place.path :=
    earlier _ (List.mem_map_of_mem member) _ List.mem_cons_self
  have apart' (other : Located) (member : other ∈ after) : other.path ≠ place.path :=
    fun same => later (same ▸ List.mem_map_of_mem member)
  have here : retext place.path safe (place::after) =
    {place with text := safe}::retext place.path safe after := by
    simp [retext]
  rw [retext_append,retext_other apart,here,retext_other apart']

/-- Where the other texts of the key are empty the rewritten one is all there is. -/
theorem textAt_retext {places : List Located} (distinct : (places.map Located.path).Nodup)
    {place : Located} (member : place ∈ places) {key : Str}
    (others : ∀ other ∈ places, other.path = place.path ∨ other.key ≠ key ∨ other.text = [])
    (safe : Str) :
    textAt key (retext place.path safe places) = if place.key = key then safe else [] := by
  obtain ⟨before,after,rfl⟩ := List.append_of_mem member
  have rewritten := retext_at distinct safe
  rw [List.map_append,List.map_cons,List.nodup_append,List.nodup_cons] at distinct
  obtain ⟨_,⟨later,_⟩,earlier⟩ := distinct
  have front : textAt key before = [] := by
    apply textAt_empty
    intro other found
    apply (others other (List.mem_append_left _ found)).resolve_left
    exact earlier _ (List.mem_map_of_mem found) _ List.mem_cons_self
  have rest : textAt key after = [] := by
    apply textAt_empty
    intro other found
    apply (others other (List.mem_append_right _ (List.mem_cons_of_mem _ found))).resolve_left
    exact fun same => later (same ▸ List.mem_map_of_mem found)
  rw [rewritten,textAt_append,textAt_cons,front,rest,List.append_nil,List.nil_append]

section Runs
variable (language : Language) (policy : StreamPolicy) (Kind : Value → Prop)

def Kept : Prop :=
  ∀ payload place payload' safe, Placed payload → place ∈ locateTexts language.tables payload →
  Kind payload →
    replaceAt place.path payload safe = some payload' → Kind payload'

/-- A channel has fed nothing yet, or remembers a place where its text was located. -/
inductive Remembered (key : Str) : Channel → Prop
  | fresh (redactor : StreamRedactor) : redactor.buffer = [] → Remembered key ⟨redactor,none⟩
  | seen (redactor : StreamRedactor) (payload : Value) (place : Located) (name : Option Str) :
      Placed payload → Kind payload →
      place ∈ locateTexts language.tables payload → place.key = key →
      Remembered key ⟨redactor,some ⟨payload,place.path,name⟩⟩

def Ready (channels : Channels) : Prop := ∀ key, Remembered language Kind key (channels.get key)

variable {Kind}

theorem ready_start : Ready language Kind .new := by
  intro key
  rw [Channels.get_new]
  exact .fresh _ rfl

theorem ready_any {channels : Channels} (ready : Ready language Kind channels) :
    Ready language (fun _ => True) channels := by
  intro key
  have remembered := ready key
  generalize channels.get key = channel at *
  cases remembered with
  | fresh redactor empty => exact .fresh redactor empty
  | seen redactor payload place name placed _ member same =>
    exact .seen redactor payload place name placed trivial member same

private theorem ready_set {channels : Channels} (ready : Ready language Kind channels) {key : Str}
    {channel : Channel} (remembered : Remembered language Kind key channel) :
    Ready language Kind (channels.set key channel) := by
  intro other
  by_cases same : other = key
  · rw [same,Channels.get_set]
    exact remembered
  · rw [Channels.get_set_other _ _ same]
    exact ready other

private theorem remembered_empty {key : Str} {channel : Channel}
    (remembered : Remembered language Kind key channel) {redactor : StreamRedactor}
    (empty : redactor.buffer = []) :
    Remembered language Kind key {channel with redactor := redactor} := by
  cases remembered with
  | fresh _ _ => exact .fresh _ empty
  | seen _ payload place name placed known member same =>
    exact .seen _ payload place name placed known member same

theorem ready_flushed {channels : Channels} (ready : Ready language Kind channels) (key : Str) :
    Ready language Kind (flushChannel language channels key).channels := by
  rw [flushChannel_channels]
  exact ready_set language ready (remembered_empty language (ready key) (Passes.flush_buffer _ _))

/-- The channels that are remembered are flushed without an exception. -/
theorem flushChannel_whole {channels : Channels} (ready : Ready language Kind channels)
    (key : Str) :
    (flushChannel language channels key).raised = false := by
  have remembered := ready key
  have nothing : ((channels.get key).redactor.flush language.options).2 = [] ↔
    (channels.get key).redactor.buffer = [] :=
    Conservation.flush_nil_iff language.classes (channels.get key).redactor
  rw [flushChannel]
  generalize (channels.get key).redactor.flush language.options = flushed at nothing ⊢
  split_ifs with silent
  · rfl
  · generalize channels.get key = channel at *
    cases remembered with
    | fresh redactor empty => exact absurd (List.isEmpty_iff.mpr (nothing.mpr empty)) silent
    | seen redactor payload place name placed known member same =>
      obtain ⟨payload',replaced,_⟩ := replace_located language.tables placed member flushed.2
      simp only [Rebuild.apply,replaced,Option.map_some]

theorem flushKeys_whole (keys : List Str) {channels : Channels}
    (ready : Ready language Kind channels) :
    (flushKeys language keys channels).raised = false := by
  induction keys generalizing channels with
  | nil => rw [flushKeys]
  | cons key keys ih =>
    rw [flushKeys,Outcome.after_raised (flushChannel_whole language ready key)]
    exact ih (ready_flushed language ready key)

theorem flushKeys_ready (keys : List Str) {channels : Channels}
    (ready : Ready language Kind channels) :
    Ready language Kind (flushKeys language keys channels).channels := by
  induction keys generalizing channels with
  | nil =>
    rw [flushKeys]
    exact ready
  | cons key keys ih =>
    rw [flushKeys,Outcome.after_channels (flushChannel_whole language ready key)]
    exact ih (ready_flushed language ready key)

variable (Kind) in
/-- An event without a located text, or with a payload of the kind. -/
def Known (emission : Emission) : Prop :=
  places language.tables emission = [] ∨
  ∃ payload, emission.body.payload = some payload ∧ Kind payload

variable (Kind) in
/-- What was sent of a channel is what its redactor returned, and what was sent is known. -/
structure Delivers (key : Str) (outcome : Outcome) : Prop where
  same : delivered language.tables key outcome.emitted = returnedText key outcome.returned
  ready : Ready language Kind outcome.channels
  known : ∀ emission ∈ outcome.emitted, Known language Kind emission

theorem delivers_after {key : Str} {first : Outcome} {next : Channels → Outcome}
    (before : Delivers language Kind key first)
    (later : first.raised = false → Delivers language Kind key (next first.channels)) :
    Delivers language Kind key (first.after next) := by
  cases raised : first.raised with
  | true =>
    rw [Outcome.after,raised,if_pos rfl]
    exact before
  | false =>
    have later := later raised
    rw [Outcome.after_whole raised]
    constructor
    · rw [delivered_append,returnedText_append,before.same,later.same]
    · exact later.ready
    · exact List.forall_mem_append.mpr ⟨before.known,later.known⟩

private theorem delivers_silent {key : Str} {channels : Channels}
    (ready : Ready language Kind channels) {emitted : List Emission} {returned : List (Str × Str)}
    {raised : Bool} (nothing : returnedText key returned = [])
    (unlocated : ∀ emission ∈ emitted, places language.tables emission = []) :
    Delivers language Kind key ⟨channels,emitted,returned,raised⟩ := by
  refine ⟨?_,ready,fun emission member => Or.inl (unlocated emission member)⟩
  rw [nothing,delivered,List.flatten_eq_nil_iff]
  intro text member
  obtain ⟨emission,found,rfl⟩ := List.mem_map.mp member
  rw [unlocated emission found,textAt_nil]

variable (keeps : Kept language Kind)
include keeps

theorem flushChannel_delivers {channels : Channels} (ready : Ready language Kind channels)
    (key other : Str) (lone : alone language key (channels.get other) = true) :
    Delivers language Kind key (flushChannel language channels other) := by
  have remembered := ready other
  have nothing : ((channels.get other).redactor.flush language.options).2 = [] ↔
    (channels.get other).redactor.buffer = [] :=
    Conservation.flush_nil_iff language.classes (channels.get other).redactor
  have stays := ready_flushed language ready other
  rw [flushChannel_channels] at stays
  rw [flushChannel]
  generalize (channels.get other).redactor.flush language.options = flushed at nothing stays ⊢
  split_ifs with silent
  · refine delivers_silent language stays ?_ (List.forall_mem_nil _)
    rw [returnedText_cons,List.isEmpty_iff.mp silent]
    split_ifs <;> rfl
  · have held : (channels.get other).redactor.buffer ≠ [] :=
      fun empty => silent (List.isEmpty_iff.mpr (nothing.mpr empty))
    generalize channels.get other = channel at *
    cases remembered with
    | fresh redactor empty => exact absurd empty held
    | seen redactor payload place name placed known member same =>
      obtain ⟨payload',replaced,located,_⟩ :=
        replace_located language.tables placed member flushed.2
      rw [alone,List.isEmpty_eq_false_iff.mpr held,Bool.false_or] at lone
      have others (another : Located) (found : another ∈ locateTexts language.tables payload) :
          another.path = place.path ∨ another.key ≠ key ∨ another.text = [] := by
        simpa [or_assoc] using List.all_eq_true.mp lone another found
      simp only [Rebuild.apply,replaced,Option.map_some]
      refine ⟨?_,stays,List.forall_mem_singleton.mpr
        (Or.inr ⟨payload',rfl,keeps payload place payload' _ placed member known replaced⟩)⟩
      rw [delivered_one,places,returnedText_cons,returnedText_nil,List.append_nil,← same]
      simp only [Body.payload]
      rw [located]
      exact textAt_retext (located_distinct language.tables payload) member others _

omit keeps in
private theorem alone_empty (key : Str) {channel : Channel} (empty : channel.redactor.buffer = []) :
    alone language key channel = true := by
  rw [alone,empty]
  rfl

theorem flushKeys_delivers (keys : List Str) {channels : Channels}
    (ready : Ready language Kind channels) (key : Str)
    (lone : ∀ other ∈ keys, alone language key (channels.get other) = true) :
    Delivers language Kind key (flushKeys language keys channels) := by
  induction keys generalizing channels with
  | nil =>
    rw [flushKeys]
    exact delivers_silent language ready rfl (List.forall_mem_nil _)
  | cons other keys ih =>
    have first :=
      flushChannel_delivers language keeps ready key other (lone other List.mem_cons_self)
    rw [flushKeys]
    apply delivers_after language first
    intro _
    apply ih first.ready
    intro another member
    exact kept_flushed language (fun _ => alone_empty language key) other another
      (lone another (List.mem_cons_of_mem _ member))

theorem flushAll_delivers {channels : Channels} (ready : Ready language Kind channels) (key : Str)
    (lone : flushesAlone language key channels = true) :
    Delivers language Kind key (flushAll language channels) := by
  rw [flushAll]
  apply flushKeys_delivers language keeps _ ready
  intro other member
  rw [flushesAlone,List.all_eq_true] at lone
  apply lone other
  rw [List.mem_cons] at member ⊢
  exact member.imp_right List.mem_mergeSort.mp

/-- Feeding the places of a payload writes what it returns where the texts stood. -/
theorem feedLocated_delivers {payload : Value} (name : Option Str) (placed : Placed payload)
    (kind : Kind payload) (later : List Located) {before : List Located} {updated : Value}
    {released : Bool} {channels : Channels} (ready : Ready language Kind channels)
    (listed : ∀ place ∈ later, place ∈ locateTexts language.tables payload) (real : Placed updated)
    (known : Kind updated) (located : locateTexts language.tables updated = before ++ later)
    (silent : released = false → ∀ place ∈ before, place.text = []) (key : Str) :
    delivered language.tables key (feedLocated language payload name later updated released
      channels).emitted =
        textAt key before ++
          returnedText key (feedLocated language payload name later updated released
            channels).returned ∧
      Ready language Kind (feedLocated language payload name later updated released
        channels).channels ∧
      (∀ emission ∈ (feedLocated language payload name later updated released channels).emitted,
        Known language Kind emission) ∧
      (feedLocated language payload name later updated released channels).raised = false := by
  induction later generalizing before updated released channels with
  | nil =>
    rw [List.append_nil] at located
    rw [feedLocated,returnedText_nil,List.append_nil]
    refine ⟨?_,ready,?_,rfl⟩
    · cases released with
      | true =>
        rw [if_pos rfl,delivered_one,places]
        exact congrArg (textAt key) located
      | false => rw [if_neg Bool.false_ne_true,delivered_nil,textAt_empty (fun place member =>
          Or.inr (silent rfl place member))]
    · cases released with
      | true => exact List.forall_mem_singleton.mpr (Or.inr ⟨updated,rfl,known⟩)
      | false => exact List.forall_mem_nil _
  | cons place later ih =>
    have member : place ∈ locateTexts language.tables updated := by
      rw [located]
      exact List.mem_append_right _ List.mem_cons_self
    have distinct := located_distinct language.tables updated
    rw [feedLocated]
    generalize (channels.get place.key).redactor.feed language.options place.text = fed
    obtain ⟨updated',replaced,located',real'⟩ := replace_located language.tables real member fed.2
    have ready' : Ready language Kind (channels.set place.key ⟨fed.1,
      some ⟨payload,place.path,name⟩⟩) := by
      apply ready_set language ready
      exact .seen fed.1 payload place name placed kind (listed place List.mem_cons_self) rfl
    rw [located] at distinct
    rw [located,retext_at distinct,List.append_cons] at located'
    have silent' (none_ : (released || !fed.2.isEmpty) = false) :
        ∀ other ∈ before ++ [{place with text := fed.2}], other.text = [] := by
      rw [Bool.or_eq_false_iff,Bool.not_eq_false',List.isEmpty_iff] at none_
      intro other found
      rcases List.mem_append.mp found with earlier | here
      · exact silent none_.1 other earlier
      · rw [List.mem_singleton.mp here]
        exact none_.2
    have known' := keeps updated place updated' _ real member known replaced
    have rest := ih ready' (fun other found => listed other (List.mem_cons_of_mem _ found)) real'
      known' located' silent'
    simp only [replaced]
    refine ⟨?_,rest.2⟩
    rw [rest.1,textAt_append,textAt_cons,textAt_nil,List.append_nil,returnedText_cons,
      List.append_assoc]

omit keeps in
private theorem unrecognised_delivers (event : SSEEvent) {payload : Value} {channels : Channels}
    (ready : Ready language Kind channels) (unlocated : locateTexts language.tables payload = [])
    (key : Str) :
    Delivers language Kind key (unrecognised language policy event payload channels) := by
  rw [unrecognised]
  cases policy.unknownSchema with
  | block => exact delivers_silent language ready rfl (List.forall_mem_nil _)
  | pass => exact delivers_silent language ready rfl (List.forall_mem_singleton.mpr unlocated)
  | redact => exact delivers_silent language ready rfl (List.forall_mem_singleton.mpr
      ((Leaves.located_redacted_iff language payload).mpr unlocated))

theorem handle_delivers {event : SSEEvent} {channels : Channels}
    (ready : Ready language Kind channels) (key : Str)
    (calm : steady language policy key event channels = true)
    (kind : ∀ payload, eventJson language.format event = some payload →
      isThinking payload = some false →
      locateTexts language.tables payload ≠ [] → Kind payload) :
    Delivers language Kind key (handle language policy event channels) := by
  rw [steady] at calm
  rw [handle]
  cases parsed : eventJson language.format event with
  | none => exact delivers_silent language ready rfl (List.forall_mem_singleton.mpr rfl)
  | some payload =>
    rw [parsed] at calm
    simp only at calm ⊢
    cases thinking : isThinking payload with
    | none => exact delivers_silent language ready rfl (List.forall_mem_nil _)
    | some thought =>
      rw [thinking] at calm
      cases thought with
      | true =>
        simp only [Bool.or_eq_true,beq_iff_eq,List.isEmpty_iff] at calm ⊢
        cases kept : policy.thinking with
        | drop => exact delivers_silent language ready rfl (List.forall_mem_nil _)
        | redact =>
          have unlocated := calm.resolve_left (by rw [kept]; decide)
          exact delivers_silent language ready rfl (List.forall_mem_singleton.mpr
            ((Leaves.located_redacted_iff language payload).mpr unlocated))
        | pass =>
          have unlocated := calm.resolve_left (by rw [kept]; decide)
          exact delivers_silent language ready rfl (List.forall_mem_singleton.mpr unlocated)
      | false =>
        simp only at calm ⊢
        split_ifs at calm ⊢ with unlocated
        · rw [List.isEmpty_iff] at unlocated
          cases ends_ : endsBlock event payload with
          | none => exact delivers_silent language ready rfl (List.forall_mem_nil _)
          | some stops =>
            cases stops with
            | false => exact unrecognised_delivers language policy event ready unlocated key
            | true =>
              rw [ends_] at calm
              have flushed := flushAll_delivers language keeps ready key (by simpa using calm)
              exact delivers_after language flushed fun _ =>
                unrecognised_delivers language policy event flushed.ready unlocated key
        · have placed := of_decide_eq_true calm
          have known :=
            kind payload parsed thinking (fun none_ => unlocated (List.isEmpty_iff.mpr none_))
          have fed := @feedLocated_delivers language Kind keeps payload event.event placed known
            (locateTexts language.tables payload) []
            payload false channels ready (fun _ member => member) placed known rfl (fun _ =>
              List.forall_mem_nil _) key
          exact ⟨fed.1,fed.2.1,fed.2.2.1⟩

omit keeps in
private theorem errorEvent_unlocated : places language.tables errorEvent = [] := rfl

/-- The whole stream, where every step of the run delivers. -/
theorem stream_delivers (events : List SSEEvent) (brokenOff : Bool) (key : Str)
    (handled : Delivers language Kind key (handleAll language policy events .new))
    (lone : flushesAlone language key (handleAll language policy events .new).channels = true) :
    Delivers language Kind key (redactSseStream language policy events brokenOff) := by
  have flushed := flushAll_delivers language keeps handled.ready key lone
  rw [redactSseStream]
  generalize handleAll language policy events .new = run at *
  generalize flushAll language run.channels = tail at *
  refine ⟨?_,flushed.ready,?_⟩
  · simp only [delivered_append,returnedText_append,handled.same,flushed.same,List.append_assoc]
    split_ifs
    · rw [delivered_one,errorEvent_unlocated,textAt_nil,List.append_nil]
    · rw [delivered_nil,List.append_nil]
  · intro emission member
    simp only [List.mem_append] at member
    rcases member with (before | tail) | closing
    · exact handled.known emission before
    · exact flushed.known emission tail
    · split_ifs at closing
      · rw [List.mem_singleton.mp closing]
        exact Or.inl (errorEvent_unlocated language)
      · contradiction

end Runs

/-- In a run whose events are steady a channel delivers what its redactor returned, once and in order. -/
theorem delivered_once (language : Language) (policy : StreamPolicy) (events : List SSEEvent)
    (brokenOff : Bool) (key : Str) (calm : steadyRun language policy key events .new = true) :
    delivered language.tables key (redactSseStream language policy events brokenOff).emitted =
      returnedText key (redactSseStream language policy events brokenOff).returned := by
  have keeps : Kept language (fun _ => True) := fun _ _ _ _ _ _ _ _ => trivial
  have run := @handleAll_rule language policy _ _ (Delivers language (fun _ => True) key)
    (Ready language (fun _ => True))
    (fun _ ready => delivers_silent language ready rfl (List.forall_mem_nil _)) (fun _ _ =>
      delivers_after language)
    (fun _ delivers => delivers.ready)
    events (fun _ _ _ ready met => handle_delivers language policy keeps ready key met
      (fun _ _ _ _ => trivial))
    .new (ready_start language) calm
  exact (stream_delivers language policy keeps events brokenOff key run.1 run.2).same

/-- A number that comes in two deltas, and the end of its block. -/
def numberInTwo : List SSEEvent :=
  [⟨none,lit "\x7b\"delta\":\x7b\"type\":\"text_delta\",\"text\":\"it is 123-45-\"\x7d\x7d"⟩,
    ⟨none,lit "\x7b\"delta\":\x7b\"type\":\"text_delta\",\"text\":\"6789 yes\"\x7d\x7d"⟩,
    ⟨none,lit "\x7b\"type\":\"content_block_stop\"\x7d"⟩]

theorem delivered_number :
    delivered Language.ascii.tables mainText (redactSseStream .ascii .default numberInTwo
      false).emitted =
    returnedText mainText (redactSseStream .ascii .default numberInTwo false).returned :=
  delivered_once .ascii .default numberInTwo false mainText (by decide +kernel)

/-- The tail of the first choice is held and sent again with the text of the second. -/
def twoChoices : SSEEvent :=
  ⟨none,lit "\x7b\"choices\":[\x7b\"delta\":\x7b\"content\":\"hello 123-45-\"\x7d\x7d,\x7b\"delta\":\x7b\"content\":\"world \"\x7d\x7d]\x7d"⟩

/-- The text stands under `message`, and the path leads into the empty `delta`. -/
def emptyDelta : SSEEvent :=
  ⟨none,lit "\x7b\"choices\":[\x7b\"delta\":\x7b\x7d,\"message\":\x7b\"content\":\"hello \"\x7d\x7d]\x7d"⟩

theorem delivered_wrongly :
    delivered Language.ascii.tables (lit "openai:1") (redactSseStream .ascii .default
      [twoChoices] false).emitted ≠
        returnedText (lit "openai:1") (redactSseStream .ascii .default
          [twoChoices] false).returned ∧
      delivered Language.ascii.tables mainText (redactSseStream .ascii .default
        [emptyDelta] false).emitted ≠
        returnedText mainText (redactSseStream .ascii .default [emptyDelta] false).returned := by
  constructor <;> decide +kernel

end QuilrMcp.Guardrail.Delivery
