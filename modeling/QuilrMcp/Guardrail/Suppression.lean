import QuilrMcp.Guardrail.Separation

/-! The fail-closed path. What is given up is one run of `OVERLONG_RUN` characters up to the end of
the input, and what is dropped behind it is the rest of that run, however the rest arrives. -/
namespace QuilrMcp.Guardrail.Suppression
open Library.Text
open Library.Search
open Library.Cutting
open Library.Unicode (Classes asciiClasses)
open Patterns
open Redactor
open Passes
open Conservation
open Separation

variable (classes : Classes)

private theorem default_bounded : ∀ pattern ∈ defaultPatterns classes,
    Consumes (fun code => continues classes code = true) pattern.expression ∨
      ∃ size reach, span pattern.expression = some (size,reach) ∧
      max size reach ≤ (Options.default classes).maxHoldback := by
  simp only [defaultPatterns,List.forall_mem_cons]
  exact ⟨Or.inl (email_continues classes),Or.inr ⟨11,11,rfl,(by decide : max 11 11 ≤ 328)⟩,
    Or.inr ⟨37,38,rfl,(by decide : max 37 38 ≤ 328)⟩,
    Or.inr ⟨17,18,rfl,(by decide : max 17 18 ≤ 328)⟩,
    Or.inl (key_continues classes),fun _ member => absurd member List.not_mem_nil⟩

/-- A held text that is too long is one run. -/
theorem overlong_continues (text : Str)
    (long : (Options.default classes).maxHoldback <
      (text.drop (holdbackIndex (defaultPatterns classes) text)).length) :
    ∀ code ∈ text.drop (holdbackIndex (defaultPatterns classes) text),
      continues classes code = true := by
  rw [List.length_drop] at long
  rcases holdbackIndex_hit (defaultPatterns classes) text with none | ⟨pattern,listed,hit,
    found,open_,start⟩
  · omega
  · rw [start] at long ⊢
    rcases default_bounded classes pattern listed with run | ⟨size,reach,bounded,ceiling⟩
    · exact covered_drop (unfinished_covered _ pattern.expression run text hit found open_)
    · have short := unfinished_reach pattern.expression text size reach bounded hit found open_
      omega

/-- The buffer that `_fail_closed` drops in a feed, if the feed calls it. -/
def givenUp (options : Options) (self : StreamRedactor) (chunk : Str) : Option Str :=
  let rest := remainder options self chunk
  if rest.isEmpty then none
  else
    let text := settled options self.buffer rest
    let held := text.drop (holdbackIndex options.patterns text)
    if options.maxHoldback < held.length then some held else none

private theorem givenUp_some {options : Options} {self : StreamRedactor} {chunk held : Str}
    (failed : givenUp options self chunk = some held) :
    ∃ text, text = settled options self.buffer (remainder options self chunk) ∧
      held = text.drop (holdbackIndex options.patterns text) ∧ options.maxHoldback < held.length ∧
      (self.feed options chunk).2 = text.take (holdbackIndex options.patterns text) ++
        options.placeholder ∧
      (self.feed options chunk).1.buffer = [] ∧ (self.feed options chunk).1.suppressing = true := by
  rw [givenUp] at failed
  rcases feed_eq options self chunk with ⟨dropped,_⟩ | ⟨left,stats,fed⟩
  · simp only [dropped,List.isEmpty_nil,if_true] at failed
    contradiction
  · simp only [List.isEmpty_eq_false_iff.mpr left,Bool.false_eq_true,if_false] at failed
    split_ifs at failed with long
    cases failed
    refine ⟨_,rfl,rfl,long,?_⟩
    rw [settled] at long ⊢
    rw [fed,StreamRedactor.absorb]
    simp only
    rw [if_pos long]
    exact ⟨rfl,rfl,rfl⟩

private theorem fed_conserves {input emitted : Str} {self : StreamRedactor}
    (conserved : Conserved input emitted self) (chunk : Str) :
    ∃ n, Conserves n (input ++ chunk) (emitted ++
      (self.buffer ++ remainder (Options.default classes) self chunk)) := by
  rw [← List.append_assoc]
  by_cases suppressing : self.suppressing = true
  · have cuts := suppressing_cuts suppressing conserved (chunk.takeWhile (continues classes))
    have all := cuts_append cuts (cuts_refl (chunk.dropWhile (continues classes)))
    rw [List.append_assoc,List.takeWhile_append_dropWhile] at all
    rw [remainder_eq,if_pos suppressing]
    exact ⟨_,all⟩
  · rw [remainder_running _ _ (Bool.eq_false_iff.mpr suppressing)]
    exact ⟨_,cuts_append (conserved_cuts conserved) (cuts_refl chunk)⟩

private theorem givenUp_conserved {input emitted chunk held : Str} {self : StreamRedactor}
    (conserved : Conserved input emitted self)
    (failed : givenUp (Options.default classes) self chunk = some held) :
    (∀ code ∈ held, continues classes code = true) ∧
      (self.feed (Options.default classes) chunk).1.buffer = [] ∧
      (self.feed (Options.default classes) chunk).1.suppressing = true ∧
      ∃ before front n, input ++ chunk = before ++ held ∧ Conserves n before front ∧
        emitted ++ (self.feed (Options.default classes) chunk).2 = front ++
          redactionPlaceholder := by
  obtain ⟨text,settles,rfl,long,out,empty,stopped⟩ := givenUp_some failed
  obtain ⟨n,arrived⟩ := fed_conserves classes conserved chunk
  obtain ⟨n,cuts⟩ : ∃ n, Conserves n (input ++ chunk) (emitted ++ text) := by
    rw [settles]
    exact ⟨_,redact_conserves true arrived⟩
  obtain ⟨before,whole,front⟩ := overlong_conserves cuts long
  refine ⟨overlong_continues classes text long,empty,stopped,before,_,n,whole,front,?_⟩
  rw [out,← List.append_assoc]
  rfl

section Runs
variable (options : Options)

/-- The characters that `_drop_suppressed_prefix` drops from the chunks until suppression ends. -/
def suppressed : StreamRedactor → List Str → Str
  | _, [] => []
  | self, chunk::chunks =>
    let rest := (self.dropSuppressedPrefix options chunk).2
    chunk.take (chunk.length - rest.length) ++ if rest.isEmpty then
      suppressed (self.feed options chunk).1 chunks else []

/-- The chunks from the first character on that does not continue the run. -/
def resumed (accept : Nat → Bool) : List Str → List Str
  | [] => []
  | chunk::chunks =>
    if (chunk.dropWhile accept).isEmpty then resumed accept chunks
    else chunk.dropWhile accept::chunks

theorem resumed_flatten (accept : Nat → Bool) (chunks : List Str) :
    (resumed accept chunks).flatten = chunks.flatten.dropWhile accept := by
  induction chunks with
  | nil => rfl
  | cons chunk chunks ih =>
    rw [resumed,List.flatten_cons,List.dropWhile_append]
    split_ifs with nothing
    · exact ih
    · rw [List.flatten_cons]

private theorem feed_continued {self : StreamRedactor} (stopped : self.suppressing = true)
    {chunk : Str} (nothing : chunk.dropWhile (continues options.classes) = []) :
    (self.feed options chunk).2 = [] ∧ Alike (self.feed options chunk).1 self := by
  rcases feed_eq options self chunk with ⟨_,out,buffer,mode⟩ | ⟨left,_⟩
  · exact ⟨out,buffer,mode⟩
  · rw [remainder_eq,if_pos stopped] at left
    contradiction

/-- A run is dropped as far as it goes, over any number of chunks. -/
theorem suppressed_run (self : StreamRedactor) (stopped : self.suppressing = true)
    (chunks : List Str) :
    suppressed options self chunks = chunks.flatten.takeWhile (continues options.classes) := by
  induction chunks generalizing self with
  | nil => rfl
  | cons chunk chunks ih =>
    have whole : chunk.takeWhile (continues options.classes) ++
      chunk.dropWhile (continues options.classes) = chunk :=
      List.takeWhile_append_dropWhile
    have sizes := congrArg List.length whole
    rw [List.length_append] at sizes
    have front : chunk.take (chunk.length - (chunk.dropWhile (continues options.classes)).length) =
        chunk.takeWhile (continues options.classes) := by
      rw [show chunk.length - (chunk.dropWhile (continues options.classes)).length =
        (chunk.takeWhile (continues options.classes)).length by omega]
      exact (congrArg (List.take _) whole.symm).trans List.take_left
    rw [suppressed,dropped_rest,front,List.flatten_cons,List.takeWhile_append]
    by_cases nothing : chunk.dropWhile (continues options.classes) = []
    · rw [nothing,List.length_nil,Nat.add_zero] at sizes
      rw [nothing,List.append_nil] at whole
      obtain ⟨_,_,mode⟩ := feed_continued options stopped nothing
      rw [nothing,if_pos List.isEmpty_nil,if_pos sizes,whole,ih _ (mode.trans stopped)]
    · have some_ := List.length_pos_of_ne_nil nothing
      rw [if_neg (by rwa [List.isEmpty_iff]),if_neg (by omega),List.append_nil]

theorem process_cons (self : StreamRedactor) (chunk : Str) (chunks : List Str) :
    self.process options (chunk::chunks) =
    (self.feed options chunk).2 ++ (self.feed options chunk).1.process options chunks := by
  rw [StreamRedactor.process,StreamRedactor.process,StreamRedactor.feedAll,List.append_assoc]

theorem process_append (self : StreamRedactor) (chunks more : List Str) :
    self.process options (chunks ++ more) =
    (self.feedAll options chunks).2 ++ (self.feedAll options chunks).1.process options more := by
  induction chunks generalizing self with
  | nil => rfl
  | cons chunk chunks ih =>
    rw [List.cons_append,process_cons,ih,StreamRedactor.feedAll,List.append_assoc]

private theorem process_alike {first second : StreamRedactor} (alike : Alike first second)
    (chunks : List Str) :
    first.process options chunks = second.process options chunks := by
  obtain ⟨same,next⟩ := feedAll_alike options alike chunks
  rw [StreamRedactor.process,StreamRedactor.process,same,(flush_alike options next).1]

theorem suppressing_process (self : StreamRedactor) (stopped : self.suppressing = true)
    (empty : self.buffer = []) (chunks : List Str) :
    self.process options chunks = StreamRedactor.new.process options
      (resumed (continues options.classes) chunks) := by
  induction chunks generalizing self with
  | nil =>
    rw [resumed,StreamRedactor.process,StreamRedactor.process,flush_out,flush_out,
      StreamRedactor.feedAll,empty]
    rfl
  | cons chunk chunks ih =>
    rw [resumed]
    by_cases nothing : chunk.dropWhile (continues options.classes) = []
    · obtain ⟨out,buffer,mode⟩ := feed_continued options stopped nothing
      rw [process_cons,out,List.nil_append,if_pos (by rw [nothing,List.isEmpty_nil])]
      exact ih _ (mode.trans stopped) (buffer.trans empty)
    · rw [if_neg (by rwa [List.isEmpty_iff]),process_cons,process_cons]
      rcases feed_eq options self chunk with ⟨dropped,_⟩ | ⟨_,stats,fed⟩
      · rw [remainder_eq,if_pos stopped] at dropped
        contradiction
      rcases feed_eq options .new (chunk.dropWhile (continues options.classes)) with ⟨dropped,
        _⟩ | ⟨_,stats',fed'⟩
      · contradiction
      rw [remainder_eq,if_pos stopped,empty] at fed
      rw [remainder_running _ _ rfl] at fed'
      obtain ⟨same,next⟩ :=
        absorb_alike options (⟨rfl,rfl⟩ : Alike ⟨[],false,stats⟩ ⟨[],false,stats'⟩)
        (chunk.dropWhile (continues options.classes))
      rw [fed,fed']
      exact congrArg₂ (· ++ ·) same (process_alike options next chunks)

end Runs

/-- What a feed gives up is a run at the end of the input, the rest of the run is dropped wherever
the chunks cut it, and the output goes on behind the placeholder as that of a new redactor for what
follows the run. -/
theorem suppression_covers_run (chunks later : List Str) (chunk held : Str)
    (failed : givenUp (Options.default classes) (StreamRedactor.new.feedAll
      (Options.default classes) chunks).1 chunk = some held) :
    (∀ code ∈ held, continues classes code = true) ∧
      suppressed (Options.default classes)
        ((StreamRedactor.new.feedAll (Options.default classes) chunks).1.feed
        (Options.default classes) chunk).1 later = later.flatten.takeWhile (continues classes) ∧
      (resumed (continues classes) later).flatten = later.flatten.dropWhile (continues classes) ∧
      ∃ before front n, chunks.flatten ++ chunk = before ++ held ∧ Conserves n before front ∧
        StreamRedactor.new.process (Options.default classes) (chunks ++ chunk::later) =
          front ++ (redactionPlaceholder ++ StreamRedactor.new.process (Options.default classes)
            (resumed (continues classes) later)) := by
  have conserved := @feedAll_conserved classes _ _ _ start_conserved chunks
  rw [List.nil_append,List.nil_append] at conserved
  obtain ⟨run,empty,stopped,before,front,n,whole,cuts,emitted⟩ :=
    givenUp_conserved classes conserved failed
  refine ⟨run,suppressed_run _ _ stopped later,resumed_flatten _ later,before,front,n,whole,cuts,?_⟩
  rw [process_append,process_cons,suppressing_process _ _ stopped empty,← List.append_assoc,emitted,
    List.append_assoc]
  rfl

theorem long_run_covered : suppressed (Options.default asciiClasses)
    ((StreamRedactor.new.feedAll (Options.default asciiClasses) []).1.feed
      (Options.default asciiClasses) (List.replicate 329 97)).1
      [lit "aa@",lit "b, c"] = lit "aa@b" :=
  (suppression_covers_run asciiClasses [] [lit "aa@",lit "b, c"] (List.replicate 329 97)
    (List.replicate 329 97)
    (by decide +kernel)).2.1.trans (by decide)

end QuilrMcp.Guardrail.Suppression
