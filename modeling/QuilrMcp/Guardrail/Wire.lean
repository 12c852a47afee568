import QuilrMcp.Guardrail.App
import QuilrMcp.Guardrail.LeafSafety
import QuilrMcp.Guardrail.SseEncoding
import QuilrMcp.Library.JsonLines

/-! The stream as it goes over the wire to the client, who reads the events that the transformer yielded. -/
namespace QuilrMcp.Guardrail.Wire
open Library Library.Text
open Library.Cutting (cuts_each)
open Library.Json (Value)
open Library.Utf8 (Scalar Undivided decodeReplace decodeReplace_scalar)
open Patterns (defaultPatterns redactionPlaceholder)
open Redactor EventStream Sse SseLines SseEncoding

section Redaction
variable {classes : Unicode.Classes} {P : Nat → Prop}
    (placed : ∀ code ∈ redactionPlaceholder, P code)
include placed

theorem redact_each (protectTail : Bool) {text : Str} (each : ∀ code ∈ text, P code) :
    ∀ code ∈ (redact redactionPlaceholder protectTail (defaultPatterns classes) text).1, P code :=
  cuts_each placed (Conservation.redact_cuts classes protectTail text) each

theorem feed_each {self : StreamRedactor} (held : ∀ code ∈ self.buffer, P code) {text : Str}
    (each : ∀ code ∈ text, P code) :
    (∀ code ∈ (self.feed (Options.default classes) text).1.buffer, P code) ∧
      ∀ code ∈ (self.feed (Options.default classes) text).2, P code := by
  have left : ∀ code ∈ Passes.remainder (Options.default classes) self text, P code :=
    fun code member =>
      each code ((Passes.remainder_suffix (Options.default classes) self text).subset member)
  have arrived :
    ∀ code ∈ Passes.settled (Options.default classes) self.buffer (Passes.remainder (Options.default classes) self text),
      P code := redact_each placed true (List.forall_mem_append.mpr ⟨held,left⟩)
  rcases Passes.feed_cases (Options.default classes) self text with ⟨-,silent,kept,-⟩ | ⟨-,absorbed⟩
  · rw [silent,kept]
    exact ⟨held,List.forall_mem_nil _⟩
  · generalize (self.feed (Options.default classes) text).2 = emitted at absorbed ⊢
    generalize (self.feed (Options.default classes) text).1 = after at absorbed ⊢
    cases absorbed with
    | split kept =>
      rw [kept]
      exact ⟨fun code member => arrived code (List.mem_of_mem_drop member),
        fun code member => arrived code (List.mem_of_mem_take member)⟩
    | overflow emptied =>
      rw [emptied]
      exact ⟨List.forall_mem_nil _,List.forall_mem_append.mpr
        ⟨fun code member => arrived code (List.mem_of_mem_take member),placed⟩⟩

theorem flush_each {self : StreamRedactor} (held : ∀ code ∈ self.buffer, P code) :
    ∀ code ∈ (self.flush (Options.default classes)).2, P code := by
  rw [Passes.flush_out,show (Options.default classes).patterns = defaultPatterns classes from rfl,
    show (Options.default classes).placeholder = redactionPlaceholder from rfl]
  exact redact_each placed false held

theorem redactText_each {text : Str} (each : ∀ code ∈ text, P code) :
    ∀ code ∈ redactText (Options.default classes) text, P code := by
  obtain ⟨held,fed⟩ :=
    @feed_each classes P placed StreamRedactor.new (List.forall_mem_nil _) text each
  rw [redactText,StreamRedactor.process,StreamRedactor.feedAll,StreamRedactor.feedAll]
  simp only [List.append_nil]
  exact List.forall_mem_append.mpr ⟨fed,flush_each placed held⟩

end Redaction

structure Readable (event : SSEEvent) : Prop where
  name : ∀ name ∈ event.event, Unbroken name ∧ ∀ code ∈ name, Scalar code
  data : Sse.cr ∉ event.data ∧ ∀ code ∈ event.data, Scalar code

theorem lit_scalar (text : String) : ∀ code ∈ lit text, Scalar code := by
  intro code member
  obtain ⟨character,-,rfl⟩ := List.mem_map.mp member
  have valid : character.toNat < 0xD800 ∨ 0xDFFF < character.toNat ∧ character.toNat < 0x110000 :=
    character.valid
  exact Utf8.scalar_of (by omega) (by omega)

theorem lit_small (text : String) : ∀ code ∈ lit text, code < 0x110000 :=
  fun code member => (lit_scalar text code member).1

theorem placeholder_small : ∀ code ∈ redactionPlaceholder, code < 0x110000 := by decide

theorem placeholder_plain : ∀ code ∈ redactionPlaceholder, code ≠ Sse.cr ∧ Scalar code := by
  intro code member
  exact ⟨(by decide : ∀ code ∈ redactionPlaceholder, code ≠ Sse.cr) code member,
    lit_scalar _ code member⟩

section Transform
variable (language : Language)

/-- A payload that is written out is one line of ASCII. -/
theorem readable_json {name : Option Str}
    (named : ∀ text ∈ name, Unbroken text ∧ ∀ code ∈ text, Scalar code) {payload : Value}
    (sound : Json.Sound language.format payload) :
    Readable (Emission.toEvent ⟨name,.json payload⟩) := by
  refine ⟨named,fun member => ?_,fun code member => ?_⟩
  · have visible := (Json.dumps_visible language.format ⟨false,true⟩ payload sound _ member).1
    revert visible
    decide
  · have printed :=
      (Json.dumps_printed language.format ⟨false,true⟩ rfl payload sound code member).2
    exact Utf8.scalar_of (by omega) (by omega)

mutual
theorem sound_redactLeaves (format : Json.FloatFormat) :
    (payload : Value) → Json.Sound format payload →
    Json.Sound format (redactLeaves language.options payload)
  | .null, sound => sound
  | .bool _, sound => sound
  | .int _, sound => sound
  | .float _, sound => sound
  | .str _, sound => redactText_each placeholder_small sound
  | .list items, sound => sound_redactItems format items sound
  | .dict fields, sound => sound_redactFields format fields sound
theorem sound_redactItems (format : Json.FloatFormat) :
    (items : List Value) → Json.SoundItems format items →
    Json.SoundItems format (redactItems language.options items)
  | [], sound => sound
  | item::items, sound =>
    ⟨sound_redactLeaves format item sound.1,sound_redactItems format items sound.2⟩
theorem sound_redactFields (format : Json.FloatFormat) :
    (fields : List (Str × Value)) → Json.SoundFields format fields →
    Json.SoundFields format (redactFields language.options fields)
  | [], sound => sound
  | (_,value)::fields, sound =>
    ⟨sound.1,sound_redactLeaves format value sound.2.1,sound_redactFields format fields sound.2.2⟩
end

theorem sound_replaceAt {path : Path} {payload payload' : Value} {text : Str}
    (sound : Json.Sound language.format payload) (small : ∀ code ∈ text, code < 0x110000)
    (replaced : replaceAt path payload text = some payload') :
    Json.Sound language.format payload' := by
  induction path generalizing payload payload' with
  | nil =>
    cases replaced
    exact small
  | cons step rest ih =>
    cases step with
    | item position =>
      cases payload with
      | list items =>
        simp only [replaceAt,Option.bind_eq_bind,Option.bind_eq_some_iff,Option.pure_def,
          Option.some.injEq] at replaced
        obtain ⟨inner,here,inner',after,rfl⟩ := replaced
        rw [Json.Sound,Json.soundItems_iff] at sound ⊢
        intro item member
        rcases List.mem_or_eq_of_mem_set member with before | rfl
        · exact sound item before
        · exact ih (sound inner (List.mem_of_getElem? here)) after
      | _ => simp only [replaceAt] at replaced; contradiction
    | field name =>
      cases payload with
      | dict fields =>
        simp only [replaceAt,Option.bind_eq_bind,Option.bind_eq_some_iff,Option.pure_def,
          Option.some.injEq] at replaced
        obtain ⟨inner,here,inner',after,rfl⟩ := replaced
        rw [Json.Sound,Json.soundFields_iff] at sound ⊢
        obtain ⟨front,back,shape,-⟩ := Dict.assign_split here
        have known := sound (name,inner) (shape ▸ by simp)
        intro field member
        rcases Dict.mem_assign member with rfl | before
        · exact ⟨known.1,ih known.2 after⟩
        · exact sound field before
      | _ => simp only [replaceAt] at replaced; contradiction

structure Kept (channel : Channel) : Prop where
  held : ∀ code ∈ channel.redactor.buffer, code < 0x110000
  payload : ∀ rebuild ∈ channel.rebuild, Json.Sound language.format rebuild.payload
  name : ∀ rebuild ∈ channel.rebuild, ∀ name ∈ rebuild.event, Unbroken name ∧
    ∀ code ∈ name, Scalar code

structure Legible (outcome : Outcome) : Prop where
  kept : ∀ key, Kept language (outcome.channels.get key)
  readable : ∀ emission ∈ outcome.emitted, Readable emission.toEvent

theorem kept_set {channels : Channels} (kept : ∀ key, Kept language (channels.get key)) (key : Str)
    {channel : Channel} (here : Kept language channel) :
    ∀ other, Kept language ((channels.set key channel).get other) := by
  intro other
  by_cases same : other = key
  · rw [same,Channels.get_set]
    exact here
  · rw [Channels.get_set_other _ _ same]
    exact kept other

theorem legible_one {channels : Channels} (kept : ∀ key, Kept language (channels.get key))
    {emission : Emission} (readable : Readable emission.toEvent) :
    Legible language ⟨channels,[emission],[],false⟩ :=
  ⟨kept,List.forall_mem_singleton.mpr readable⟩

theorem legible_none {channels : Channels} (kept : ∀ key, Kept language (channels.get key))
    (returned : List (Str × Str)) (raised : Bool) :
    Legible language ⟨channels,[],returned,raised⟩ := ⟨kept,List.forall_mem_nil _⟩

theorem legible_after {first : Outcome} {next : Channels → Outcome}
    (before : Legible language first)
    (later : first.raised = false → Legible language (next first.channels)) :
    Legible language (first.after next) := by
  rw [Outcome.after]
  cases raised : first.raised with
  | true => exact before
  | false =>
    obtain ⟨kept,readable⟩ := later raised
    exact ⟨kept,List.forall_mem_append.mpr ⟨before.readable,readable⟩⟩

theorem default_readable {text : Str} (small : ∀ code ∈ text, code < 0x110000) :
    Readable (defaultTextRebuild text).toEvent := by
  apply readable_json Language.ascii
  · rintro name ⟨⟩
    exact ⟨⟨by decide,by decide⟩,lit_scalar _⟩
  · have zero : Json.Sound Language.ascii.format (.int 0) :=
      show (Json.natText (0 : Int).natAbs).length ≤ _ by decide
    exact ⟨lit_small _,lit_small _,lit_small _,zero,lit_small _,
      ⟨lit_small _,lit_small _,lit_small _,small,trivial⟩,trivial⟩

theorem error_readable : Readable errorEvent.toEvent := by
  apply readable_json Language.ascii
  · rintro name ⟨⟩
    exact ⟨⟨by decide,by decide⟩,lit_scalar _⟩
  · exact ⟨lit_small _,lit_small _,lit_small _,⟨lit_small _,lit_small _,lit_small _,lit_small _,
      trivial⟩,trivial⟩

theorem flushChannel_legible {channels : Channels} (kept : ∀ key, Kept language (channels.get key))
    (key : Str) :
    Legible language (flushChannel language channels key) := by
  have small := @flush_each language.classes _ placeholder_small _ (kept key).held
  have settled : ∀ other, Kept language ((channels.set key {channels.get key with
      redactor := ((channels.get key).redactor.flush language.options).1}).get other) :=
    kept_set language kept key ⟨List.forall_mem_nil _,(kept key).payload,(kept key).name⟩
  have remembered := kept key
  rw [flushChannel]
  rw [show Options.default language.classes = language.options from rfl] at small
  generalize (channels.get key).redactor.flush language.options = flushed at small settled ⊢
  split_ifs
  · exact legible_none language settled _ _
  · generalize channels.set key _ = next at settled ⊢
    cases rebuild : (channels.get key).rebuild with
    | none => exact ⟨settled,List.forall_mem_singleton.mpr (default_readable small)⟩
    | some rebuild' =>
      dsimp only
      cases applied : rebuild'.apply flushed.2 with
      | none => exact legible_none language settled _ _
      | some emission =>
        obtain ⟨payload,replaced,rfl⟩ := Option.map_eq_some_iff.mp applied
        exact ⟨settled,List.forall_mem_singleton.mpr
          (readable_json language (remembered.name _ rebuild)
          (sound_replaceAt language (remembered.payload _ rebuild) small replaced))⟩

theorem flushKeys_legible (keys : List Str) {channels : Channels}
    (kept : ∀ key, Kept language (channels.get key)) :
    Legible language (flushKeys language keys channels) := by
  induction keys generalizing channels with
  | nil => exact legible_none language kept _ _
  | cons key keys ih =>
    have first := flushChannel_legible language kept key
    exact legible_after language first (fun _ => ih first.kept)

theorem feedLocated_legible {payload : Value} (sound : Json.Sound language.format payload)
    {name : Option Str} (named : ∀ text ∈ name, Unbroken text ∧ ∀ code ∈ text, Scalar code)
    (places : List Located) (small : ∀ place ∈ places, ∀ code ∈ place.text, code < 0x110000)
    {updated : Value} (updates : Json.Sound language.format updated) (released : Bool)
    {channels : Channels} (kept : ∀ key, Kept language (channels.get key)) :
    Legible language (feedLocated language payload name places updated released channels) := by
  induction places generalizing updated released channels with
  | nil =>
    rw [feedLocated]
    split_ifs
    · exact legible_one language kept (readable_json language named updates)
    · exact legible_none language kept _ _
  | cons place places ih =>
    obtain ⟨here,later⟩ := List.forall_mem_cons.mp small
    obtain ⟨held,fed⟩ :=
      @feed_each language.classes _ placeholder_small _ (kept place.key).held _ here
    rw [feedLocated]
    rw [show Options.default language.classes = language.options from rfl] at held fed
    generalize (channels.get place.key).redactor.feed language.options place.text =
      result at held fed ⊢
    have next : ∀ key,
      Kept language
        ((channels.set place.key ⟨result.1,some ⟨payload,place.path,name⟩⟩).get key) := by
      refine kept_set language kept place.key ⟨held,?_,?_⟩
      · rintro rebuild ⟨⟩
        exact sound
      · rintro rebuild ⟨⟩
        exact named
    dsimp only
    cases replaced : replaceAt place.path updated result.2 with
    | none => exact legible_none language next _ _
    | some updated' =>
      obtain ⟨steady,readable⟩ := ih later (sound_replaceAt language updates fed replaced)
        (released || !result.2.isEmpty) next
      exact ⟨steady,readable⟩

theorem sound_at {fields : List (Str × Value)} (sound : Json.SoundFields language.format fields)
    {name : Str} {value : Value} (found : fields.lookup name = some value) :
    Json.Sound language.format value := by
  obtain ⟨front,back,shape,-⟩ := Dict.assign_split found
  exact ((Json.soundFields_iff language.format fields).mp sound (name,value) (shape ▸ by simp)).2

theorem delta_small {fields : List (Str × Value)}
    (sound : Json.SoundFields language.format fields) :
    ∀ place ∈ locateDelta language.tables fields, ∀ code ∈ place.text, code < 0x110000 := by
  intro place member
  rw [locateDelta] at member
  split at member
  · rename_i delta found
    have inner : Json.SoundFields language.format delta := sound_at language sound found
    dsimp only at member
    split at member
    · rename_i kind _
      by_cases spoken : kind = lit "text_delta"
      · rw [if_pos spoken] at member
        split at member
        · rename_i text here
          obtain rfl := List.mem_singleton.mp member
          exact sound_at language inner here
        · contradiction
      · rw [if_neg spoken] at member
        split at member
        · split at member
          · rename_i text here
            obtain rfl := List.mem_singleton.mp member
            exact sound_at language inner here
          · contradiction
        · contradiction
    · contradiction
  · contradiction

theorem inner_sound {choice : List (Str × Value)}
    (sound : Json.SoundFields language.format choice) :
    Json.Sound language.format (innerOf choice) := by
  have known (name : Str) : Json.Sound language.format ((choice.lookup name).getD .null) := by
    cases found : choice.lookup name with
    | none => trivial
    | some value => exact sound_at language sound found
  rw [innerOf]
  split_ifs
  · exact known _
  · exact known _

theorem choice_small {claimed : Bool} {choice : Value} (sound : Json.Sound language.format choice)
    {position : Nat} {place : Located} (found : locateChoice claimed choice position = some place) :
    ∀ code ∈ place.text, code < 0x110000 := by
  cases choice with
  | dict fields =>
    have inner := inner_sound language sound
    simp only [locateChoice] at found
    split at found
    · rename_i shape
      rw [shape] at inner
      split at found
      · rename_i content
        cases found
        exact sound_at language inner content
      · contradiction
    · contradiction
  | _ => contradiction

theorem choices_small {claimed : Bool} {choices : List Value}
    (sound : Json.SoundItems language.format choices) (position : Nat) :
    ∀ place ∈ locateChoices claimed choices position, ∀ code ∈ place.text, code < 0x110000 := by
  induction choices generalizing position with
  | nil => exact List.forall_mem_nil _
  | cons choice choices ih =>
    refine List.forall_mem_append.mpr ⟨fun place member => ?_,ih sound.2 (position + 1)⟩
    exact choice_small language sound.1 (Option.mem_toList.mp member)

/-- What is located is text of the payload. -/
theorem located_small {payload : Value} (sound : Json.Sound language.format payload) :
    ∀ place ∈ locateTexts language.tables payload, ∀ code ∈ place.text, code < 0x110000 := by
  cases payload with
  | dict fields =>
    refine List.forall_mem_append.mpr ⟨delta_small language sound,choices_small language ?_ 0⟩
    rw [choicesOf]
    split
    · rename_i choices found
      exact sound_at language sound found
    · trivial
  | _ => exact List.forall_mem_nil _

theorem unrecognised_legible (policy : StreamPolicy) {event : SSEEvent} (readable : Readable event)
    {payload : Value} (sound : Json.Sound language.format payload) {channels : Channels}
    (kept : ∀ key, Kept language (channels.get key)) :
    Legible language (unrecognised language policy event payload channels) := by
  rw [unrecognised]
  cases policy.unknownSchema with
  | block => exact legible_none language kept _ _
  | pass => exact legible_one language kept readable
  | redact => exact legible_one language kept (readable_json language readable.name
      (sound_redactLeaves language _ payload sound))

theorem handle_legible (policy : StreamPolicy) {event : SSEEvent} (readable : Readable event)
    {channels : Channels} (kept : ∀ key, Kept language (channels.get key)) :
    Legible language (handle language policy event channels) := by
  have parsed (payload : Value) (loaded : eventJson language.format event = some payload) :
    Json.Sound language.format payload := by
    rw [eventJson] at loaded
    split at loaded
    · cases loaded
    · rename_i read
      cases loaded
      exact Json.loads_dict_sound language.format event.data payload (fun code member =>
        (readable.data.2 code member).1) read
    · cases loaded
  rw [handle]
  cases loaded : eventJson language.format event with
  | none =>
    have redacted := @redactText_each language.classes _ placeholder_plain event.data
      (fun code member => ⟨fun same => readable.data.1 (same ▸ member),readable.data.2 code member⟩)
    exact legible_one language kept ⟨readable.name,fun member => (redacted _ member).1 rfl,
      fun code member => (redacted code member).2⟩
  | some payload =>
    have sound := parsed payload loaded
    dsimp only
    cases isThinking payload with
    | none => exact legible_none language kept _ _
    | some thought =>
      cases thought with
      | true =>
        dsimp only
        cases policy.thinking with
        | drop => exact legible_none language kept _ _
        | redact => exact legible_one language kept (readable_json language readable.name
            (sound_redactLeaves language _ payload sound))
        | pass => exact legible_one language kept readable
      | false =>
        dsimp only
        split_ifs
        · cases endsBlock event payload with
          | none => exact legible_none language kept _ _
          | some stops =>
            cases stops with
            | false => exact unrecognised_legible language policy readable sound kept
            | true =>
              have flushed :=
                flushKeys_legible language (mainText::(channels.others.map Prod.fst).mergeSort
                  (fun a b => decide (a ≤ b))) kept
              exact legible_after language flushed (fun _ =>
                unrecognised_legible language policy readable sound flushed.kept)
        · exact feedLocated_legible language sound readable.name _ (located_small language sound)
            sound false kept

theorem handleAll_legible (policy : StreamPolicy) {events : List SSEEvent}
    (readable : ∀ event ∈ events, Readable event) {channels : Channels}
    (kept : ∀ key, Kept language (channels.get key)) :
    Legible language (handleAll language policy events channels) := by
  induction events generalizing channels with
  | nil => exact legible_none language kept _ _
  | cons event events ih =>
    obtain ⟨first,later⟩ := List.forall_mem_cons.mp readable
    have handled := handle_legible language policy first kept
    exact legible_after language handled (fun _ => ih later handled.kept)

theorem new_kept (key : Str) : Kept language (Channels.new.get key) := by
  rw [Channels.get_new]
  refine ⟨List.forall_mem_nil _,?_,?_⟩ <;> rintro rebuild ⟨⟩

/-- Of readable events the transformer yields readable ones. -/
theorem redactSseStream_readable (policy : StreamPolicy) {events : List SSEEvent}
    (readable : ∀ event ∈ events, Readable event) (brokenOff : Bool) :
    ∀ emission ∈ (redactSseStream language policy events brokenOff).emitted,
      Readable emission.toEvent := by
  have handled := handleAll_legible language policy readable (new_kept language)
  have flushed :=
    flushKeys_legible language
      (mainText::((handleAll language policy events .new).channels.others.map Prod.fst).mergeSort
    (fun a b => decide (a ≤ b))) handled.kept
  rw [redactSseStream]
  refine List.forall_mem_append.mpr ⟨List.forall_mem_append.mpr ⟨handled.readable,
    flushed.readable⟩,?_⟩
  split_ifs
  · exact List.forall_mem_singleton.mpr error_readable
  · exact List.forall_mem_nil _

end Transform

section Reading
variable {P : Nat → Prop}

theorem lines_each {text : Str} (each : ∀ code ∈ text, P code) :
    (∀ line ∈ lines text, ∀ code ∈ line, P code) ∧ ∀ code ∈ remainder text, P code := by
  cases found : findLineEnd text with
  | none =>
    obtain ⟨none_,all⟩ := split_none found
    rw [none_,all]
    exact ⟨List.forall_mem_nil _,each⟩
  | some pair =>
    obtain ⟨stop,next⟩ := pair
    have bound := lineEnd_bound found
    obtain ⟨first,rest⟩ := split_some found
    obtain ⟨later,remains⟩ :=
      @lines_each (text.drop next) (fun code member => each code (List.mem_of_mem_drop member))
    rw [first,rest]
    exact ⟨List.forall_mem_cons.mpr ⟨fun code member => each code (List.mem_of_mem_take member),
      later⟩,remains⟩
termination_by text.length
decreasing_by
  rw [List.length_drop]
  omega

theorem linesRead_each {buffer : Str} (held : ∀ code ∈ buffer, P code) {texts : List Str}
    (each : ∀ text ∈ texts, ∀ code ∈ text, P code) :
    ∀ line ∈ linesRead buffer texts, ∀ code ∈ line, P code := by
  induction texts generalizing buffer with
  | nil =>
    rw [linesRead]
    split_ifs
    · exact List.forall_mem_nil _
    · exact List.forall_mem_singleton.mpr held
  | cons text texts ih =>
    obtain ⟨here,later⟩ := List.forall_mem_cons.mp each
    obtain ⟨read,remains⟩ := lines_each (List.forall_mem_append.mpr ⟨held,here⟩)
    exact List.forall_mem_append.mpr ⟨read,ih remains later⟩

theorem linesOf_scalar (chunks : List Bytes) :
    ∀ line ∈ linesOf chunks, ∀ code ∈ line, Scalar code := by
  rw [linesOf]
  apply linesRead_each (P := Scalar) (List.forall_mem_nil _)
  intro text member
  obtain ⟨chunk,-,rfl⟩ := List.mem_map.mp member
  exact decodeReplace_scalar chunk

/-- A parser that has read lines made of some codes; the lines of its data are not joined yet. -/
structure Made (P : Nat → Prop) (parser : SSEParser) : Prop where
  name : ∀ name ∈ parser.event, ∀ code ∈ name, P code
  data : ∀ line ∈ parser.data, ∀ code ∈ line, P code

structure MadeEvent (P : Nat → Prop) (event : SSEEvent) : Prop where
  name : ∀ name ∈ event.event, ∀ code ∈ name, P code
  data : ∀ code ∈ event.data, code = Sse.lf ∨ P code

variable {parser : SSEParser}

theorem dispatch_made (made : Made P parser) :
    Made P parser.dispatch.1 ∧ ∀ event ∈ parser.dispatch.2, MadeEvent P event := by
  rw [SSEParser.dispatch]
  split_ifs
  · refine ⟨made,?_⟩
    rintro event ⟨⟩
  · refine ⟨⟨?_,List.forall_mem_nil _⟩,?_⟩
    · rintro name ⟨⟩
    · rintro event ⟨⟩
      refine ⟨made.name,fun code inside => (mem_intercalate inside).imp_right ?_⟩
      rintro ⟨line,listed,member⟩
      exact made.data line listed code member

theorem handleLine_made {line : Str} (made : Made P parser) (each : ∀ code ∈ line, P code) :
    Made P (parser.handleLine line).1 ∧ ∀ event ∈ (parser.handleLine line).2,
      MadeEvent P event := by
  have value : ∀ code ∈ fieldValue line, P code :=
    fun code member => each code (value_part line member)
  have silent : ∀ event ∈ (none : Option SSEEvent), MadeEvent P event := by rintro event ⟨⟩
  simp only [SSEParser.handleLine]
  split_ifs
  · exact dispatch_made made
  · exact ⟨made,silent⟩
  · refine ⟨⟨?_,made.data⟩,silent⟩
    rintro name ⟨⟩
    exact value
  · exact ⟨⟨made.name,List.forall_mem_append.mpr ⟨made.data,List.forall_mem_singleton.mpr value⟩⟩,
      silent⟩
  · exact ⟨made,silent⟩

theorem handleLines_made {lines : List Str} (made : Made P parser)
    (each : ∀ line ∈ lines, ∀ code ∈ line, P code) :
    Made P (parser.handleLines lines).1 ∧ ∀ event ∈ (parser.handleLines lines).2,
      MadeEvent P event := by
  induction lines generalizing parser with
  | nil => exact ⟨made,List.forall_mem_nil _⟩
  | cons line lines ih =>
    obtain ⟨here,rest⟩ := List.forall_mem_cons.mp each
    obtain ⟨next,first⟩ := handleLine_made made here
    obtain ⟨last,later⟩ := ih next rest
    exact ⟨last,List.forall_mem_append.mpr ⟨fun event member =>
      first event (Option.mem_toList.mp member),later⟩⟩

theorem yields_made {lines : List Str} (each : ∀ line ∈ lines, ∀ code ∈ line, P code) :
    ∀ event ∈ SSEParser.new.yields lines, MadeEvent P event := by
  have new : Made P SSEParser.new := by
    refine ⟨?_,List.forall_mem_nil _⟩
    rintro name ⟨⟩
  obtain ⟨made,events⟩ := handleLines_made new each
  exact List.forall_mem_append.mpr ⟨events,fun event member => (dispatch_made made).2 event
    (Option.mem_toList.mp member)⟩

/-- Chunks whose lines have no line end in them give readable events. -/
theorem parse_readable {chunks : List Bytes} (cut : ∀ line ∈ linesOf chunks, Unbroken line) :
    ∀ event ∈ parse chunks, Readable event := by
  intro event member
  have codes : ∀ line ∈ linesOf chunks, ∀ code ∈ line, (code ≠ Sse.cr ∧ code ≠ Sse.lf) ∧
    Scalar code := by
    intro line listed code inside
    have plain := cut line listed
    exact ⟨⟨fun same => plain.1 (same ▸ inside),fun same => plain.2 (same ▸ inside)⟩,
      linesOf_scalar chunks line listed code inside⟩
  rw [parse_lines] at member
  obtain ⟨named,data⟩ := yields_made codes event member
  refine ⟨fun name here => ⟨⟨fun inside => ?_,fun inside => ?_⟩,fun code inside =>
    (named name here code inside).2⟩,
    fun inside => ?_,fun code inside => ?_⟩
  · exact (named name here _ inside).1.1 rfl
  · exact (named name here _ inside).1.2 rfl
  · rcases data _ inside with feed | plain
    · exact absurd feed (by decide)
    · exact plain.1.1 rfl
  · rcases data code inside with rfl | plain
    · exact Utf8.scalar_of (by decide) (by decide)
    · exact plain.2

end Reading

/-- An event without an empty name, which is not written. -/
def named (self : SSEEvent) : SSEEvent :=
  {self with event := self.event.filter (fun name => !name.isEmpty)}

theorem encodeText_named (event : SSEEvent) : encodeText (named event) = encodeText event := by
  have same : eventLines (named event) = eventLines event := by
    obtain ⟨name,data⟩ := event
    cases name with
    | none => rfl
    | some name => cases name <;> rfl
  rw [encodeText,same,encodeText]

theorem written_named {event : SSEEvent} (readable : Readable event) : Written (named event) := by
  refine ⟨fun name member => ?_,fun name member => ?_,readable.data.1⟩
  · obtain ⟨-,filled⟩ := Option.mem_filter_iff.mp member
    rintro rfl
    contradiction
  · obtain ⟨here,-⟩ := Option.mem_filter_iff.mp member
    exact (readable.name name here).1

theorem encodeText_scalar {event : SSEEvent} (readable : Readable event) :
    ∀ code ∈ encodeText event, Scalar code := by
  have feed : Scalar Sse.lf := Utf8.scalar_of (by decide) (by decide)
  have data : ∀ line ∈ (Unicode.split Sse.lf event.data).map (lit "data: " ++ ·), ∀ code ∈ line,
    Scalar code := by
    intro line listed
    obtain ⟨part,here,rfl⟩ := List.mem_map.mp listed
    exact List.forall_mem_append.mpr ⟨lit_scalar _,fun code member =>
      readable.data.2 code (Unicode.split_part here member).1⟩
  have written : ∀ line ∈ eventLines event, ∀ code ∈ line, Scalar code := by
    refine List.forall_mem_append.mpr ⟨?_,data⟩
    cases name : event.event with
    | none => exact List.forall_mem_nil _
    | some text =>
      dsimp only
      split_ifs
      · exact List.forall_mem_nil _
      · exact List.forall_mem_singleton.mpr (List.forall_mem_append.mpr ⟨lit_scalar _,
          (readable.name text name).2⟩)
  refine List.forall_mem_append.mpr ⟨fun code member => ?_,?_⟩
  · rcases mem_intercalate member with rfl | ⟨line,listed,inside⟩
    · exact feed
    · exact written line listed code inside
  · exact List.forall_mem_cons.mpr ⟨feed,List.forall_mem_singleton.mpr feed⟩

theorem encode_readable {event : SSEEvent} (readable : Readable event) :
    ∃ encoding, encode event = some encoding := by
  rw [← Option.isSome_iff_exists,encode,Encoding.encodeUtf8_isSome]
  exact fun code member => (encodeText_scalar readable code member).2

theorem encodings_exist {events : List SSEEvent} (readable : ∀ event ∈ events, Readable event) :
    ∃ encodings, events.mapM encode = some encodings := by
  induction events with
  | nil => exact ⟨[],rfl⟩
  | cons event events ih =>
    obtain ⟨here,later⟩ := List.forall_mem_cons.mp readable
    obtain ⟨first,encoded⟩ := encode_readable here
    obtain ⟨rest,others⟩ := ih later
    exact ⟨first::rest,by simp [List.mapM_cons,encoded,others]⟩

theorem events_fed (events : List SSEEvent) :
    events.flatMap encodeText = fed ((events.map named).flatMap parts) := by
  rw [fed,List.flatMap_map,List.flatMap_assoc]
  apply List.flatMap_congr
  intro event _
  rw [← encodeText_named,encodeText_fed]
  rfl

/-- What is written of readable events is read as they are, an empty name apart. -/
theorem read_back {events : List SSEEvent} (readable : ∀ event ∈ events, Readable event)
    {encodings : List Bytes} (encoded : events.mapM encode = some encodings) {pieces : List Bytes}
    (cut : pieces.flatten = encodings.flatten) (undivided : Undivided pieces) :
    parse pieces = events.map named := by
  have written : ∀ event ∈ events.map named, Written event := by
    intro event listed
    obtain ⟨known,here,rfl⟩ := List.mem_map.mp listed
    exact written_named (readable known here)
  have unbroken : ∀ line ∈ (events.map named).flatMap parts, Unbroken line := by
    intro line listed
    obtain ⟨event,here,part⟩ := List.mem_flatMap.mp listed
    exact parts_unbroken (written event here) line part
  have small : ∀ code ∈ events.flatMap encodeText, code < 0x110000 := by
    intro code member
    obtain ⟨event,here,inside⟩ := List.mem_flatMap.mp member
    exact (encodeText_scalar (readable event here) code inside).1
  have whole : (pieces.map decodeReplace).flatten = fed ((events.map named).flatMap parts) := by
    rw [← List.flatMap_def,Utf8.decode_undivided pieces undivided,cut,
      Utf8.decode_encode small (encode_events encoded),events_fed]
  have plain := fed_plain unbroken
  rw [← whole] at plain
  have lines : linesOf pieces = (events.map named).flatMap parts := by
    rw [linesOf,(linesRead_iff _).mpr (settles_plain [] _ plain),whole,read_fed unbroken]
  rw [parse_lines,lines,SSEParser.yields,handle_events written]
  exact List.append_nil _

section Relay
variable (language : Language) (policy : StreamPolicy)

theorem relay_readable (upstream : App.Upstream)
    (cut : ∀ line ∈ linesOf upstream.chunks, Unbroken line) :
    ∀ event ∈ (App.relay language policy upstream).map Emission.toEvent, Readable event := by
  have came := parse_readable cut
  have fed : ∀ event ∈ (SSEParser.new.feedAll upstream.chunks).2, Readable event :=
    fun event member => came event (List.mem_append_left _ member)
  rw [List.forall_mem_map]
  apply redactSseStream_readable language policy
  split_ifs
  · exact fed
  · exact came

/-- Whatever the provider streams, in lines without line ends in them, and under every policy, the
events that the proxy yields can be written, and a client who gets the octets, cut between characters,
reads exactly those events. -/
theorem relay_read (upstream : App.Upstream)
    (cut : ∀ line ∈ linesOf upstream.chunks, Unbroken line) :
    ∃ encodings, ((App.relay language policy upstream).map Emission.toEvent).mapM encode =
      some encodings ∧
      ∀ pieces : List Bytes, pieces.flatten = encodings.flatten → Undivided pieces →
        parse pieces = (App.relay language policy upstream).map (fun emission =>
          named emission.toEvent) := by
  have readable := relay_readable language policy upstream cut
  obtain ⟨encodings,encoded⟩ := encodings_exist readable
  refine ⟨encodings,encoded,fun pieces joined undivided => ?_⟩
  rw [read_back readable encoded joined undivided,List.map_map]
  rfl

/-- Lines that pairs end, cut within the name of a field. -/
def pairedChunks : List Bytes := [lit "event: ping\r\nda",lit "ta: call 123-45-6789\r\n\r\n"]

theorem pairedChunks_octets : ∀ chunk ∈ pairedChunks, ∀ byte ∈ chunk, byte < 0x100 := by decide

def broken : App.Upstream := ⟨200,lit "text/event-stream",pairedChunks,pairedChunks_octets,true⟩

theorem relay_read_broken :
    ∃ encodings, ((App.relay Language.ascii .default broken).map Emission.toEvent).mapM encode =
      some encodings ∧
      ∀ pieces : List Bytes, pieces.flatten = encodings.flatten → Undivided pieces →
        parse pieces = (App.relay Language.ascii .default broken).map (fun emission =>
          named emission.toEvent) := by
  apply relay_read
  have read : linesOf broken.chunks = [lit "event: ping",lit "data: call 123-45-6789",[]] := by
    decide +kernel
  rw [read]
  simp only [List.forall_mem_cons]
  exact ⟨⟨by decide,by decide⟩,⟨by decide,by decide⟩,⟨by decide,by decide⟩,List.forall_mem_nil _⟩

end Relay

end QuilrMcp.Guardrail.Wire
