import QuilrMcp.Guardrail.Separation

/-! Which events end a stream: those whose handling raises. -/
namespace QuilrMcp.Guardrail.Survival
open Library.Text
open Library.Json (Value)
open Redactor
open Sse (SSEEvent)
open EventStream
open Located
open Delivery

section Events
variable (language : Language) (policy : StreamPolicy)

/-- The type of the delta has no hash, the payload is no dictionary and does not end a block, or the
text of a choice is misplaced. -/
def fatal (event : SSEEvent) : Bool :=
  match eventJson language.format event with
  | none => false
  | some payload =>
    match isThinking payload with
    | none => true
    | some true => false
    | some false =>
      if (locateTexts language.tables payload).isEmpty then endsBlock event payload == none
      else !decide (Placed payload)

/-- Every event is handled, nothing is raised, and no error event is added. -/
structure Survives (events : List SSEEvent) : Prop where
  handled : (handleAll language policy events .new).raised = false
  ended : (redactSseStream language policy events false).raised = false
  silent : (redactSseStream language policy events false).emitted =
    (handleAll language policy events .new).emitted ++
    (flushAll language (handleAll language policy events .new).channels).emitted

variable {language policy}

/-- A place that leads nowhere is met in the end. -/
theorem feedLocated_raises (payload : Value) (name : Option Str) (places : List Located)
    {updated : Value} {released : Bool} {channels : Channels}
    (astray : ∃ place ∈ places, valueAt place.path updated = none)
    (apart : ∀ place ∈ places, ∀ other ∈ places, other.path ≠ place.path →
      ¬ other.path <+: place.path) :
    (feedLocated language payload name places updated released channels).raised = true := by
  induction places generalizing updated released channels with
  | nil =>
    obtain ⟨_,member,_⟩ := astray
    exact absurd member List.not_mem_nil
  | cons place places ih =>
    rw [feedLocated]
    generalize (channels.get place.key).redactor.feed language.options place.text = fed
    cases replaced : replaceAt place.path updated fed.2 with
    | none => rfl
    | some updated' =>
      apply ih
      · obtain ⟨other,member,nothing⟩ := astray
        have there : valueAt place.path updated ≠ none := by
          rw [← Option.isSome_iff_ne_none,← replaceAt_isSome place.path updated fed.2,replaced]
          rfl
        have differs : other.path ≠ place.path := fun same => there (same ▸ nothing)
        refine ⟨other,(List.mem_cons.mp member).resolve_left (fun same => differs (same ▸ rfl)),?_⟩
        rw [valueAt_other replaced (apart place List.mem_cons_self other member differs)
          (apart other member place List.mem_cons_self (Ne.symm differs)),nothing]
      · exact fun first member second found => apart first (List.mem_cons_of_mem _ member) second
          (List.mem_cons_of_mem _ found)

theorem handle_fatal {event : SSEEvent} (channels : Channels) (ends : fatal language event = true) :
    (handle language policy event channels).raised = true := by
  rw [fatal] at ends
  rw [handle]
  cases parsed : eventJson language.format event with
  | none => rw [parsed] at ends; contradiction
  | some payload =>
    rw [parsed] at ends
    simp only at ends ⊢
    cases thinking : isThinking payload with
    | none => rfl
    | some thought =>
      rw [thinking] at ends
      cases thought with
      | true => contradiction
      | false =>
        simp only at ends ⊢
        split_ifs at ends ⊢ with unlocated
        · rw [beq_iff_eq] at ends
          rw [ends]
        · rw [Bool.not_eq_true',decide_eq_false_iff_not] at ends
          exact feedLocated_raises payload event.event _ (astray_of_unplaced language.tables ends)
            (fun place member other found apart => located_apart language.tables member found apart)

/-- An event that is not fatal is handled, and what is remembered can be rewritten afterwards. -/
theorem handle_whole {Kind : Value → Prop} (keeps : Kept language Kind)
    (all : ∀ payload, Kind payload) {event : SSEEvent} {channels : Channels}
    (ready : Ready language Kind channels) (harmless : fatal language event = false) :
    (handle language policy event channels).raised = false ∧
    Ready language Kind (handle language policy event channels).channels := by
  rw [fatal] at harmless
  rw [handle]
  cases parsed : eventJson language.format event with
  | none => exact ⟨rfl,ready⟩
  | some payload =>
    rw [parsed] at harmless
    simp only at harmless ⊢
    cases thinking : isThinking payload with
    | none => rw [thinking] at harmless; contradiction
    | some thought =>
      rw [thinking] at harmless
      cases thought with
      | true =>
        simp only
        cases policy.thinking <;> exact ⟨rfl,ready⟩
      | false =>
        simp only at harmless ⊢
        split_ifs at harmless ⊢ with unlocated
        · have still (channels : Channels) : (unrecognised language policy event payload
            channels).raised = false ∧
              (unrecognised language policy event payload channels).channels = channels := by
            rw [unrecognised]
            cases policy.unknownSchema <;> exact ⟨rfl,rfl⟩
          cases ends_ : endsBlock event payload with
          | none => rw [ends_] at harmless; contradiction
          | some stops =>
            cases stops with
            | false =>
              simp only
              rw [(still channels).2]
              exact ⟨(still channels).1,ready⟩
            | true =>
              have whole : (flushAll language channels).raised = false :=
                flushKeys_whole language _ ready
              have ready' : Ready language Kind (flushAll language channels).channels :=
                flushKeys_ready language _ ready
              simp only
              rw [Outcome.after_raised whole,Outcome.after_channels whole,(still _).2]
              exact ⟨(still _).1,ready'⟩
        · rw [Bool.not_eq_false',decide_eq_true_eq] at harmless
          have fed := @feedLocated_delivers language Kind keeps payload event.event
            harmless (all payload)
            (locateTexts language.tables payload) [] payload false channels ready (fun _ member =>
              member) harmless (all payload) rfl
            (fun _ => List.forall_mem_nil _) mainText
          exact ⟨fed.2.2.2,fed.2.1⟩

theorem handleAll_whole_iff {Kind : Value → Prop} (keeps : Kept language Kind)
    (all : ∀ payload, Kind payload) (events : List SSEEvent) {channels : Channels}
    (ready : Ready language Kind channels) :
    ((handleAll language policy events channels).raised = false ↔ ∀ event ∈ events,
      fatal language event = false) ∧
      ((handleAll language policy events channels).raised = false →
        Ready language Kind (handleAll language policy events channels).channels) := by
  induction events generalizing channels with
  | nil => exact ⟨iff_of_true rfl (List.forall_mem_nil _),fun _ => ready⟩
  | cons event events ih =>
    rw [handleAll,List.forall_mem_cons]
    cases ends_ : fatal language event with
    | true =>
      have raised := @handle_fatal language policy event channels ends_
      rw [Outcome.after,if_pos raised,raised]
      exact ⟨iff_of_false Bool.noConfusion (fun both => Bool.noConfusion both.1),Bool.noConfusion⟩
    | false =>
      obtain ⟨whole,ready'⟩ :=
        @handle_whole language policy Kind keeps all event channels ready ends_
      obtain ⟨rest,readies⟩ := ih ready'
      rw [Outcome.after_raised whole,Outcome.after_channels whole,rest]
      exact ⟨⟨fun later => ⟨rfl,later⟩,fun both => both.2⟩,fun later => readies (rest.mpr later)⟩

end Events

/-- The stream survives its events exactly where none is fatal. -/
theorem survives_iff (language : Language) (policy : StreamPolicy) (chunks : List Bytes) :
    Survives language policy (Sse.parse chunks) ↔ ∀ event ∈ Sse.parse chunks,
      fatal language event = false := by
  generalize Sse.parse chunks = events
  obtain ⟨whole,ready⟩ :=
    @handleAll_whole_iff language policy (fun _ => True) (fun _ _ _ _ _ _ _ _ => trivial)
      (fun _ => trivial)
    events .new (ready_start language)
  constructor
  · exact fun survives => whole.mp survives.handled
  · intro harmless
    have handled := whole.mpr harmless
    have flushed : (flushAll language (handleAll language policy events .new).channels).raised =
      false :=
      flushKeys_whole language _ (ready handled)
    constructor
    · exact handled
    · rw [redactSseStream]
      generalize handleAll language policy events .new = run at *
      generalize flushAll language run.channels = tail at *
      exact flushed
    · rw [redactSseStream]
      generalize handleAll language policy events .new = run at *
      generalize flushAll language run.channels = tail at *
      simp only [handled,Bool.or_self,Bool.false_and,Bool.false_eq_true,if_false,List.append_nil]

/-- An array, a delta whose type is a list, and a choice whose text is misplaced. -/
theorem frames_kill : ¬ Survives .ascii .default (Sse.parse [lit "data: [1]\n\n"]) ∧
      ¬ Survives .ascii .default
        (Sse.parse [lit "data: \x7b\"delta\":\x7b\"type\":[]\x7d\x7d\n\n"]) ∧
      ¬ Survives .ascii .default (Sse.parse
        [lit "data: \x7b\"choices\":[\x7b\"delta\":null,\"message\":\x7b\"content\":\"hi\"\x7d\x7d]\x7d\n\n"]) := by
  refine ⟨fun survives => ?_,fun survives => ?_,fun survives => ?_⟩
  · exact absurd survives.handled (by decide +kernel)
  · exact absurd survives.handled (by decide +kernel)
  · exact absurd survives.handled (by decide +kernel)

end QuilrMcp.Guardrail.Survival
