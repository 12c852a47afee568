import QuilrMcp.Library.Utf8

/-! Incremental parsing of server-sent events: octets come in, whole events go out. Where a cut between
two chunks stands decides which line ends are found, and the cuts that change nothing are told apart
from those that do. -/
namespace QuilrMcp.Guardrail.Sse
open Library.Text
open Library.Utf8 (decodeReplace Undivided decode_undivided decode_divided replacement)

def cr : Nat := 13
def lf : Nat := 10

structure SSEEvent where
  event : Option Str
  data : Str
  deriving DecidableEq

structure SSEParser where
  buffer : Str
  event : Option Str
  data : List Str

def SSEParser.new : SSEParser := ⟨[],none,[]⟩

/-- The end of the first line and the start of the next. -/
def findLineEnd (buffer : Str) : Option (Nat × Nat) :=
  match find [cr,lf] buffer with
  | some position => some (position,position + 2)
  | none =>
    match find [lf] buffer with
    | some position => some (position,position + 1)
    | none =>
      match find [cr] buffer with
      | some position => if position = buffer.length - 1 then none else some (position,position + 1)
      | none => none

def SSEParser.dispatch (self : SSEParser) : SSEParser × Option SSEEvent :=
  if self.data.isEmpty && self.event.isNone then (self,none)
  else ({self with event := none,data := []},some ⟨self.event,[lf].intercalate self.data⟩)

/-- The value of a field, without the one space before it. -/
def fieldValue (line : Str) : Str :=
  let value := (line.dropWhile (· != 58)).drop 1
  if value.head? = some 32 then value.drop 1 else value

def SSEParser.handleLine (self : SSEParser) (line : Str) : SSEParser × Option SSEEvent :=
  if line.isEmpty then self.dispatch
  else if line.head? = some 58 then (self,none)
  else
    let field := line.takeWhile (· != 58)
    if field = lit "event" then ({self with event := some (fieldValue line)},none)
    else if field = lit "data" then ({self with data := self.data ++ [fieldValue line]},none)
    else (self,none)

/-- The loop over the lines of the buffer, which every line shortens. -/
def SSEParser.takeLines : Nat → SSEParser → SSEParser × List SSEEvent
  | 0, self => (self,[])
  | fuel + 1, self =>
    match findLineEnd self.buffer with
    | none => (self,[])
    | some (stop,next) =>
      let handled := ({self with buffer := self.buffer.drop next} : SSEParser).handleLine
        (self.buffer.take stop)
      let later := SSEParser.takeLines fuel handled.1
      (later.1,handled.2.toList ++ later.2)

def SSEParser.feed (self : SSEParser) (chunk : Bytes) : SSEParser × List SSEEvent :=
  let buffer := self.buffer ++ decodeReplace chunk
  SSEParser.takeLines buffer.length {self with buffer := buffer}

/-- A text is not decoded. -/
def SSEParser.feedText (self : SSEParser) (text : Str) : SSEParser × List SSEEvent :=
  let buffer := self.buffer ++ text
  SSEParser.takeLines buffer.length {self with buffer := buffer}

def SSEParser.flush (self : SSEParser) : SSEParser × List SSEEvent :=
  let rest := if self.buffer.isEmpty then self
    else (({self with buffer := []} : SSEParser).handleLine self.buffer).1
  (rest.dispatch.1,rest.dispatch.2.toList)

def SSEParser.feedAll : SSEParser → List Bytes → SSEParser × List SSEEvent
  | self, [] => (self,[])
  | self, chunk::chunks =>
    let fed := self.feed chunk
    let later := SSEParser.feedAll fed.1 chunks
    (later.1,fed.2 ++ later.2)

/-- The events that the chunks give, the flush at their end included. -/
def parse (chunks : List Bytes) : List SSEEvent :=
  let fed := SSEParser.new.feedAll chunks
  fed.2 ++ fed.1.flush.2

/-- The complete lines of a text, and the rest behind them. -/
def splitLines : Nat → Str → List Str × Str
  | 0, text => ([],text)
  | fuel + 1, text =>
    match findLineEnd text with
    | none => ([],text)
    | some (stop,next) =>
      (text.take stop::(splitLines fuel (text.drop next)).1,(splitLines fuel (text.drop next)).2)

def lines (text : Str) : List Str := (splitLines text.length text).1

def remainder (text : Str) : Str := (splitLines text.length text).2

variable {text before after : Str} {stop next : Nat}

theorem findLineEnd_crlf {i : Nat} (found : find [cr,lf] text = some i) :
    findLineEnd text = some (i,i + 2) := by
  rw [findLineEnd,found]

theorem findLineEnd_lf {i : Nat} (none : ¬ [cr,lf] <:+: text) (found : find [lf] text = some i) :
    findLineEnd text = some (i,i + 1) := by
  rw [findLineEnd,(find_none_iff _ _).mpr none,found]

theorem infix_one (code : Nat) (text : Str) : [code] <:+: text ↔ code ∈ text := by
  constructor
  · intro inside
    exact inside.subset List.mem_cons_self
  · intro member
    obtain ⟨before,after,rfl⟩ := List.append_of_mem member
    exact ⟨before,after,by simp⟩

private theorem crlf_feeds (none : lf ∉ text) : ¬ [cr,lf] <:+: text :=
  fun inside => none (inside.subset (by simp))

theorem findLineEnd_cr {i : Nat} (none : lf ∉ text) (found : find [cr] text = some i)
    (more : i ≠ text.length - 1) :
    findLineEnd text = some (i,i + 1) := by
  have unfed : find [lf] text = .none :=
    (find_none_iff _ _).mpr (fun inside => none ((infix_one lf text).mp inside))
  rw [findLineEnd,(find_none_iff _ _).mpr (crlf_feeds none),unfed,found]
  exact if_neg more

/-- The three kinds of line ends, in the order in which they are looked for. -/
inductive LineEnd : Str → Nat → Nat → Prop
  | crlf (line rest : Str) : find [cr,lf] (line ++ ([cr,lf] ++ rest)) = some line.length →
      LineEnd (line ++ ([cr,lf] ++ rest)) line.length (line.length + 2)
  | lf (line rest : Str) : ¬ [cr,Sse.lf] <:+: line ++ ([Sse.lf] ++ rest) →
      find [Sse.lf] (line ++ ([Sse.lf] ++ rest)) = some line.length →
      LineEnd (line ++ ([Sse.lf] ++ rest)) line.length (line.length + 1)
  | cr (line rest : Str) : Sse.lf ∉ line ++ ([Sse.cr] ++ rest) → rest ≠ [] →
      find [Sse.cr] (line ++ ([Sse.cr] ++ rest)) = some line.length →
      LineEnd (line ++ ([Sse.cr] ++ rest)) line.length (line.length + 1)

theorem lineEnd_of_found (found : findLineEnd text = some (stop,next)) :
    LineEnd text stop next := by
  rw [findLineEnd] at found
  cases pair : find [cr,lf] text with
  | some i =>
    simp only [pair,Option.some.injEq,Prod.mk.injEq] at found
    obtain ⟨rfl,rfl⟩ := found
    obtain ⟨line,rest,rfl,rfl⟩ := find_some pair
    exact .crlf line rest pair
  | none =>
    have unpaired := (find_none_iff _ _).mp pair
    cases feed : find [lf] text with
    | some i =>
      simp only [pair,feed,Option.some.injEq,Prod.mk.injEq] at found
      obtain ⟨rfl,rfl⟩ := found
      obtain ⟨line,rest,rfl,rfl⟩ := find_some feed
      exact .lf line rest unpaired feed
    | none =>
      have unfed : lf ∉ text :=
        fun member => (find_none_iff _ _).mp feed ((infix_one lf text).mpr member)
      cases carriage : find [cr] text with
      | some i =>
        simp only [pair,feed,carriage,Option.ite_none_left_eq_some,Option.some.injEq,
          Prod.mk.injEq] at found
        obtain ⟨more,rfl,rfl⟩ := found
        obtain ⟨line,rest,rfl,rfl⟩ := find_some carriage
        refine .cr line rest unfed ?_ carriage
        rintro rfl
        simp at more
      | none => simp [pair,feed,carriage] at found

/-- The line, its end and the rest are the text. -/
theorem lineEnd_bound (found : findLineEnd text = some (stop,next)) :
    stop < next ∧ next ≤ text.length := by
  cases lineEnd_of_found found <;> simp

theorem drop_lineEnd (line terminator rest : Str) :
    (line ++ (terminator ++ rest)).drop (line.length + terminator.length) = rest := by
  rw [← List.append_assoc,← List.length_append,List.drop_left]

theorem splitLines_fuel (fuel : Nat) (text : Str) (enough : text.length ≤ fuel) :
    splitLines fuel text = splitLines text.length text := by
  suffices same : ∀ fuel, ∀ text : Str, text.length ≤ fuel → ∀ fuel', text.length ≤ fuel' →
    splitLines fuel text = splitLines fuel' text from
    same fuel text enough _ (Nat.le_refl _)
  intro fuel
  induction fuel with
  | zero =>
    intro text empty fuel' _
    obtain rfl := List.length_eq_zero_iff.mp (Nat.le_zero.mp empty)
    cases fuel' <;> rfl
  | succ fuel ih =>
    intro text enough fuel' enough'
    cases found : findLineEnd text with
    | none => cases fuel' <;> simp [splitLines,found]
    | some pair =>
      obtain ⟨stop,next⟩ := pair
      have bound := lineEnd_bound found
      cases fuel' with
      | zero => omega
      | succ fuel' =>
        have short : (text.drop next).length ≤ fuel ∧ (text.drop next).length ≤ fuel' := by
          rw [List.length_drop]
          omega
        simp only [splitLines,found,ih _ short.1 fuel' short.2]

theorem split_none (found : findLineEnd text = none) : lines text = [] ∧ remainder text = text := by
  rw [lines,remainder]
  cases shape : text.length <;> simp [splitLines,found]

theorem split_some (found : findLineEnd text = some (stop,next)) :
    lines text = text.take stop::lines (text.drop next) ∧
    remainder text = remainder (text.drop next) := by
  have bound := lineEnd_bound found
  obtain ⟨size,shape⟩ := Nat.exists_eq_succ_of_ne_zero (show text.length ≠ 0 by omega)
  have enough : (text.drop next).length ≤ size := by
    rw [List.length_drop]
    omega
  rw [lines,remainder,shape,splitLines,found]
  simp only [splitLines_fuel size _ enough]
  exact ⟨rfl,rfl⟩

/-- Whether no line end found before the cut is superseded behind it. -/
def Settled (before after : Str) : Prop :=
  (∀ front back, before = front ++ lf::back → lf ∉ back → front.getLast? ≠ some cr →
    ¬ [cr,lf] <:+: back ++ after) ∧
    (∀ front back, before = front ++ cr::back → back ≠ [] → lf ∉ back → lf ∉ after)

private theorem last_behind (front back : Str) :
    (front ++ lf::back).getLast? = some cr ↔ back.getLast? = some cr := by
  cases back with
  | nil => simp [lf,cr]
  | cons code back => simp

private theorem divided_behind {front rest before after : Str} {code : Nat}
    (shape : front ++ lf::rest = before ++ code::after) (clean : lf ∉ after) :
    (code = lf ∧ front = before ∧ rest = after) ∨
      ∃ more, before = front ++ lf::more ∧ rest = more ++ code::after := by
  rcases List.append_eq_append_iff.mp shape with ⟨more,first,second⟩ | ⟨more,first,second⟩
  · cases more with
    | nil =>
      obtain ⟨same,rest⟩ := List.cons.inj second
      exact Or.inl ⟨same.symm,by simp [first],rest⟩
    | cons head more =>
      obtain ⟨rfl,rest⟩ := List.cons.inj second
      exact Or.inr ⟨more,first,rest⟩
  · cases more with
    | nil =>
      obtain ⟨same,rest⟩ := List.cons.inj second
      exact Or.inl ⟨same,by simp [first],rest.symm⟩
    | cons head more =>
      obtain ⟨rfl,rest⟩ := List.cons.inj second
      exact absurd (by simp [rest]) clean

/-- A line feed that is part of a pair, or that no pair follows, has no say. -/
theorem settled_feed (line rest after : Str)
    (held : line.getLast? = some cr ∨ ¬ [cr,lf] <:+: rest ++ after) :
    Settled (line ++ lf::rest) after ↔ Settled rest after := by
  constructor
  · rintro ⟨feeds,carriages⟩
    refine ⟨fun front back shape clean lone => ?_,fun front back shape more clean => ?_⟩
    · apply feeds (line ++ lf::front) back (by simp [shape]) clean
      rwa [Ne,last_behind]
    · exact carriages (line ++ lf::front) back (by simp [shape]) more clean
  · rintro ⟨feeds,carriages⟩
    refine ⟨fun front back shape clean lone => ?_,fun front back shape filled clean => ?_⟩
    · rcases divided_behind shape clean with ⟨_,rfl,rfl⟩ | ⟨more,rfl,rest⟩
      · exact held.resolve_left lone
      · rw [Ne,last_behind] at lone
        exact feeds more back rest clean lone
    · rcases divided_behind shape clean with ⟨other,_⟩ | ⟨more,_,rest⟩
      · contradiction
      · exact carriages more back rest filled clean

theorem settled_plain (none : lf ∉ before) (none' : lf ∉ after) : Settled before after := by
  refine ⟨fun front back shape _ _ => ?_,fun _ _ _ _ _ => none'⟩
  exact absurd (by simp [shape]) none

/-- What holds of a cut: the remainder behind it does not depend on it, the lines do not exactly where
it is settled, and there are more of them otherwise. -/
structure Cut (before after : Str) : Prop where
  remains : remainder (before ++ after) = remainder (remainder before ++ after)
  whole : Settled before after →
    lines (before ++ after) = lines before ++ lines (remainder before ++ after)
  more : ¬ Settled before after →
    (lines (before ++ after)).length < (lines before).length +
    (lines (remainder before ++ after)).length

private theorem cut_none (found : findLineEnd before = none) (settled : Settled before after) :
    Cut before after := by
  obtain ⟨none,all⟩ := split_none found
  rw [← all] at settled
  constructor
  · rw [all]
  · intro _
    rw [none,all,List.nil_append]
  · intro unsettled
    rw [all] at settled
    exact absurd settled unsettled

private theorem cut_first (found : findLineEnd before = some (stop,next))
    (kept : findLineEnd (before ++ after) = some (stop,next))
    (settled : Settled before after ↔ Settled (before.drop next) after)
    (cut : Cut (before.drop next) after) : Cut before after := by
  have bound := lineEnd_bound found
  have dropped : (before ++ after).drop next = before.drop next ++ after :=
    List.drop_append_of_le_length bound.2
  have taken : (before ++ after).take stop = before.take stop :=
    List.take_append_of_le_length (by omega)
  obtain ⟨lines,rest⟩ := split_some found
  obtain ⟨lines',rest'⟩ := split_some kept
  rw [dropped] at lines' rest'
  constructor
  · rw [rest',rest,cut.remains]
  · intro known
    rw [lines',lines,rest,taken,cut.whole (settled.mp known),List.cons_append]
  · intro unknown
    have longer := cut.more (fun known => unknown (settled.mpr known))
    rw [lines',lines,rest]
    simp only [List.length_cons]
    omega

private theorem lineEnd_rest (found : findLineEnd text = some (stop,next))
    (last : text.getLast? = some cr) :
    (text.drop next).getLast? = some cr := by
  cases lineEnd_of_found found with
  | crlf line rest _ =>
    have last : ((line ++ [cr]) ++ lf::rest).getLast? = some cr := by simpa using last
    rw [show line.length + 2 = line.length + [cr,lf].length from rfl,drop_lineEnd]
    exact (last_behind _ rest).mp last
  | lf line rest _ _ =>
    rw [show line.length + 1 = line.length + [lf].length from rfl,drop_lineEnd]
    exact (last_behind line rest).mp last
  | cr line rest _ filled _ =>
    rw [show line.length + 1 = line.length + [cr].length from rfl,drop_lineEnd]
    rwa [List.getLast?_append_of_ne_nil _ (by simp),List.getLast?_append_of_ne_nil _ filled] at last

/-- What is left is the text behind some position, and a last carriage return is left. -/
theorem remainder_drop (text : Str) :
    ∃ k, k ≤ text.length ∧ remainder text = text.drop k ∧ (text.getLast? = some cr →
      k < text.length) := by
  cases found : findLineEnd text with
  | none =>
    refine ⟨0,Nat.zero_le _,(split_none found).2,fun last => ?_⟩
    apply List.length_pos_of_ne_nil
    rintro rfl
    contradiction
  | some pair =>
    obtain ⟨stop,next⟩ := pair
    have bound := lineEnd_bound found
    obtain ⟨k,inside,rest,last⟩ := remainder_drop (text.drop next)
    rw [List.length_drop] at inside last
    refine ⟨next + k,by omega,by rw [(split_some found).2,rest,List.drop_drop],fun ends => ?_⟩
    have := last (lineEnd_rest found ends)
    omega
termination_by text.length
decreasing_by
  have _ := lineEnd_bound found
  rw [List.length_drop]
  omega

/-- A line end behind the cut that is found first although there was one before the cut. -/
private theorem cut_later {i size : Nat} (some' : findLineEnd before ≠ none)
    (unsettled : ¬ Settled before after)
    (behind : ∀ k ≤ before.length, (before.getLast? = some cr → k < before.length) → k ≤ i)
    (kept : ∀ k ≤ i, findLineEnd ((before ++ after).drop k) = some (i - k,i - k + size)) :
    Cut before after := by
  obtain ⟨k,inside,rest,last⟩ := remainder_drop before
  have reach := behind k inside last
  have whole := kept 0 (Nat.zero_le _)
  have part := kept k reach
  rw [List.drop_append_of_le_length inside,← rest] at part
  rw [List.drop_zero,Nat.sub_zero] at whole
  obtain ⟨lines,remains⟩ := split_some whole
  obtain ⟨lines',remains'⟩ := split_some part
  have same : (remainder before ++ after).drop (i - k + size) =
    (before ++ after).drop (i + size) := by
    rw [rest,← List.drop_append_of_le_length inside,List.drop_drop]
    congr 1
    omega
  rw [same] at lines' remains'
  refine ⟨by rw [remains,remains'],fun settled => absurd settled unsettled,fun _ => ?_⟩
  cases found : findLineEnd before with
  | none => exact absurd found some'
  | some pair =>
    obtain ⟨stop,next⟩ := pair
    rw [lines,lines',(split_some found).1]
    simp only [List.length_cons]
    omega

private theorem cut_pair (paired : [cr,lf] <:+: before ++ after) (none : ¬ [cr,lf] <:+: before)
    (some' : findLineEnd before ≠ .none) (unsettled : ¬ Settled before after) :
    Cut before after := by
  cases found : find [cr,lf] (before ++ after) with
  | none => exact absurd paired ((find_none_iff _ _).mp found)
  | some i =>
    apply cut_later some' unsettled
    · intro k inside last
      obtain ⟨left,right,shape,size⟩ := find_some found
      have shape : before ++ after = (left ++ [cr]) ++ (lf::right) := by simpa using shape
      have ends (same : before = left ++ [cr]) : k ≤ i := by
        have short := congrArg List.length same
        have := last (by simp [same])
        rw [List.length_append,List.length_singleton] at short
        omega
      rcases List.append_eq_append_iff.mp shape with ⟨more,first,_⟩ | ⟨more,first,second⟩
      · have sizes := congrArg List.length first
        simp only [List.length_append,List.length_singleton] at sizes
        cases more with
        | nil => exact ends (by simp [first])
        | cons code more =>
          rw [List.length_cons] at sizes
          omega
      · cases more with
        | nil => exact ends (by simp [first])
        | cons code more =>
          obtain ⟨rfl,_⟩ := List.cons.inj second
          exact absurd ⟨left,more,by simp [first]⟩ none
    · intro k reach
      exact findLineEnd_crlf (find_drop found reach)

private theorem cut_feed (feed : lf ∈ after) (none : lf ∉ before) (unpaired : ¬ [cr,lf] <:+: before ++ after)
    (some' : findLineEnd before ≠ .none) (unsettled : ¬ Settled before after) : Cut before after := by
  cases found : find [lf] (before ++ after) with
  | none => exact absurd ((infix_one _ _).mpr (List.mem_append_right _ feed)) ((find_none_iff _ _).mp found)
  | some i =>
    apply @cut_later before after i 1 some' unsettled
    · intro k inside last
      obtain ⟨left,right,shape,size⟩ := find_some found
      by_contra far
      rcases List.append_eq_append_iff.mp shape with ⟨more,first,_⟩ | ⟨more,first,second⟩
      · have sizes := congrArg List.length first
        rw [List.length_append] at sizes
        omega
      · cases more with
        | nil =>
          have sizes := congrArg List.length first
          rw [List.append_nil] at sizes
          omega
        | cons code more =>
          obtain ⟨rfl,_⟩ := List.cons.inj second
          exact none (by simp [first])
    · intro k reach
      apply findLineEnd_lf _ (find_drop found reach)
      exact fun inside => unpaired (inside.trans (List.drop_suffix k _).isInfix)

private theorem pair_divided {front back : Str} (inside : [cr,lf] <:+: front ++ lf::back) :
    [cr,lf] <:+: front ++ [lf] ∨ [cr,lf] <:+: back := by
  obtain ⟨left,right,same⟩ := inside
  have same : front ++ lf::back = (left ++ [cr]) ++ lf::right := by simpa using same.symm
  rcases List.append_eq_append_iff.mp same with ⟨more,first,second⟩ | ⟨more,first,second⟩
  · cases more with
    | nil =>
      rw [List.append_nil] at first
      exact Or.inl ⟨left,[],by simp [← first]⟩
    | cons code more =>
      obtain ⟨rfl,rest⟩ := List.cons.inj second
      have last : (front ++ lf::more).getLast? = some cr := by simp [← first]
      obtain ⟨inner,rfl⟩ := List.getLast?_eq_some_iff.mp ((last_behind front more).mp last)
      exact Or.inr ⟨inner,right,by simp [rest]⟩
  · cases more with
    | nil =>
      rw [List.append_nil] at first
      exact Or.inl ⟨left,[],by simp [first]⟩
    | cons code more =>
      obtain ⟨rfl,_⟩ := List.cons.inj second
      exact Or.inl ⟨left,more ++ [lf],by simp [first]⟩

private theorem last_feed (member : lf ∈ text) :
    ∃ front back, text = front ++ lf::back ∧ lf ∉ back := by
  obtain ⟨front,back,shape,clean⟩ := List.eq_append_cons_of_mem (List.mem_reverse.mpr member)
  refine ⟨back.reverse,front.reverse,?_,by simpa using clean⟩
  simpa using congrArg List.reverse shape

private theorem unsettled_pair (feed : lf ∈ before) (none : ¬ [cr,lf] <:+: before)
    (paired : [cr,lf] <:+: before ++ after) :
    ¬ Settled before after := by
  obtain ⟨front,back,rfl,clean⟩ := last_feed feed
  have apart : ¬ [cr,lf] <:+: front ++ [lf] := fun inside => none (inside.trans ⟨[],back,by simp⟩)
  rintro ⟨feeds,_⟩
  apply feeds front back rfl clean
  · intro last
    obtain ⟨inner,rfl⟩ := List.getLast?_eq_some_iff.mp last
    exact apart ⟨inner,[],by simp⟩
  · have divided : [cr,lf] <:+: front ++ lf::(back ++ after) := by simpa using paired
    exact (pair_divided divided).resolve_left apart

private theorem settled_none (found : findLineEnd before = none) : Settled before after := by
  have other (pair : Nat × Nat) : findLineEnd before ≠ some pair := by simp [found]
  have unpaired : ¬ [cr,lf] <:+: before := by
    rw [← find_none_iff,Option.eq_none_iff_forall_ne_some]
    exact fun i pair => other _ (findLineEnd_crlf pair)
  have unfed : lf ∉ before := by
    rw [← infix_one,← find_none_iff,Option.eq_none_iff_forall_ne_some]
    exact fun i feed => other _ (findLineEnd_lf unpaired feed)
  refine ⟨fun front back shape _ _ => absurd (by simp [shape]) unfed,
    fun front back shape filled _ => ?_⟩
  cases carriage : find [cr] (front ++ [cr]) with
  | none => exact absurd ((infix_one cr _).mpr (by simp)) ((find_none_iff _ _).mp carriage)
  | some i =>
    obtain ⟨left,right,cuts,size⟩ := find_some carriage
    have sizes := congrArg List.length cuts
    have more := List.length_pos_of_ne_nil filled
    have first := find_append carriage back
    rw [show front ++ [cr] ++ back = before by simp [shape]] at first
    refine absurd (findLineEnd_cr unfed first ?_) (other _)
    simp only [shape,List.length_append,List.length_cons,List.length_nil] at sizes ⊢
    omega

/-- A cut changes the lines exactly where it is not settled, and then it adds some. -/
theorem cut (before after : Str) : Cut before after := by
  cases found : findLineEnd before with
  | none => exact cut_none found (settled_none found)
  | some pair =>
    obtain ⟨stop,next⟩ := pair
    have some' : findLineEnd before ≠ none := by simp [found]
    cases lineEnd_of_found found with
    | crlf line rest pair =>
      have rest' : (line ++ ([cr,lf] ++ rest)).drop (line.length + 2) = rest :=
        drop_lineEnd line [cr,lf] rest
      apply cut_first found (findLineEnd_crlf (find_append pair after))
      · rw [rest']
        have shape : line ++ ([cr,lf] ++ rest) = (line ++ [cr]) ++ lf::rest := by simp
        rw [shape]
        exact settled_feed _ rest after (Or.inl (by simp))
      · rw [rest']
        exact cut rest after
    | lf line rest unpaired feed =>
      have rest' : (line ++ ([lf] ++ rest)).drop (line.length + 1) = rest :=
        drop_lineEnd line [lf] rest
      by_cases paired : [cr,lf] <:+: (line ++ ([lf] ++ rest)) ++ after
      · exact cut_pair paired unpaired some' (unsettled_pair (by simp) unpaired paired)
      · apply cut_first found (findLineEnd_lf paired (find_append feed after))
        · rw [rest']
          apply settled_feed line rest after (Or.inr _)
          exact fun inside => paired (inside.trans ⟨line ++ [lf],[],by simp⟩)
        · rw [rest']
          exact cut rest after
    | cr line rest unfed filled carriage =>
      have rest' : (line ++ ([cr] ++ rest)).drop (line.length + 1) = rest :=
        drop_lineEnd line [cr] rest
      have clean : lf ∉ rest := fun member => unfed (by simp [member])
      by_cases feed : lf ∈ after
      · have unsettled : ¬ Settled (line ++ ([cr] ++ rest)) after := fun settled =>
          settled.2 line rest rfl filled clean feed
        by_cases paired : [cr,lf] <:+: (line ++ ([cr] ++ rest)) ++ after
        · exact cut_pair paired (crlf_feeds unfed) some' unsettled
        · exact cut_feed feed unfed paired some' unsettled
      · have unfed' : lf ∉ (line ++ ([cr] ++ rest)) ++ after := fun member =>
          (List.mem_append.mp member).elim unfed feed
        apply cut_first found
        · apply findLineEnd_cr unfed' (find_append carriage after)
          have more := List.length_pos_of_ne_nil filled
          simp only [List.length_append,List.length_singleton]
          omega
        · rw [rest']
          exact iff_of_true (settled_plain unfed feed) (settled_plain clean feed)
        · rw [rest']
          exact cut rest after
termination_by before.length
decreasing_by
  all_goals
    simp only [List.length_append,List.length_cons,List.length_nil]
    omega

/-- The lines that the parser handles: its buffer at the end is one as well. -/
def linesRead : Str → List Str → List Str
  | buffer, [] => if buffer.isEmpty then [] else [buffer]
  | buffer, text::texts => lines (buffer ++ text) ++ linesRead (remainder (buffer ++ text)) texts

def Settles : Str → List Str → Prop
  | _, [] => True
  | before, text::texts => Settled before text ∧ Settles (before ++ text) texts

/-- What many cuts do to the lines. -/
structure Cuts (before : Str) (texts : List Str) : Prop where
  whole : Settles before texts →
    lines before ++ linesRead (remainder before) texts = linesRead [] [before ++ texts.flatten]
  more : ¬ Settles before texts →
    (linesRead [] [before ++ texts.flatten]).length < (lines before).length +
    (linesRead (remainder before) texts).length

theorem cuts (before : Str) (texts : List Str) : Cuts before texts := by
  induction texts generalizing before with
  | nil =>
    refine ⟨fun _ => ?_,fun unsettled => absurd trivial unsettled⟩
    simp [linesRead]
  | cons text texts ih =>
    have here := cut before text
    have later := ih (before ++ text)
    have whole : before ++ (text::texts).flatten = (before ++ text) ++ texts.flatten := by simp
    have length : (linesRead [] [(before ++ text) ++ texts.flatten]).length ≤
        (lines (before ++ text)).length +
        (linesRead (remainder (before ++ text)) texts).length := by
      by_cases settles : Settles (before ++ text) texts
      · apply Nat.le_of_eq
        rw [← later.whole settles,List.length_append]
      · exact Nat.le_of_lt (later.more settles)
    have step : linesRead (remainder before) (text::texts) =
        lines (remainder before ++ text) ++ linesRead (remainder (before ++ text)) texts := by
      rw [linesRead,here.remains]
    constructor
    · rintro ⟨settled,settles⟩
      rw [whole,step,← later.whole settles,here.whole settled,List.append_assoc]
    · intro unsettled
      rw [whole,step,List.length_append]
      by_cases settled : Settled before text
      · have fewer := later.more (fun settles => unsettled ⟨settled,settles⟩)
        have same := congrArg List.length (here.whole settled)
        rw [List.length_append] at same
        omega
      · have fewer := here.more settled
        omega

/-- The lines are those of the whole text exactly where every cut is settled. -/
theorem linesRead_iff (texts : List Str) :
    linesRead [] texts = linesRead [] [texts.flatten] ↔ Settles [] texts := by
  have cuts := cuts [] texts
  constructor
  · intro same
    by_contra unsettled
    have fewer := cuts.more unsettled
    have sizes := congrArg List.length same
    rw [show lines [] = [] from rfl,show remainder [] = [] from rfl,List.nil_append,
      List.length_nil] at fewer
    omega
  · exact cuts.whole

def inLine (code : Nat) : Bool := code != cr && code != lf

private theorem count_lines (text : Str) :
    (lines text).flatten.countP inLine + (remainder text).countP inLine = text.countP inLine := by
  cases found : findLineEnd text with
  | none =>
    obtain ⟨none,all⟩ := split_none found
    rw [none,all,List.flatten_nil,List.countP_nil,Nat.zero_add]
  | some pair =>
    obtain ⟨stop,next⟩ := pair
    have rest := count_lines (text.drop next)
    obtain ⟨lines,remains⟩ := split_some found
    have terminator : text.countP inLine = (text.take stop).countP inLine +
      (text.drop next).countP inLine := by
      cases lineEnd_of_found found with
      | crlf line rest _ =>
        rw [show line.length + 2 = line.length + [cr,lf].length from rfl,drop_lineEnd,
          List.take_left]
        simp [inLine]
      | lf line rest _ _ =>
        rw [show line.length + 1 = line.length + [lf].length from rfl,drop_lineEnd,List.take_left]
        simp [inLine]
      | cr line rest _ _ _ =>
        rw [show line.length + 1 = line.length + [cr].length from rfl,drop_lineEnd,List.take_left]
        simp [inLine]
    rw [lines,remains,List.flatten_cons,List.countP_append]
    omega
termination_by text.length
decreasing_by
  have _ := lineEnd_bound found
  rw [List.length_drop]
  omega

theorem count_linesRead (buffer : Str) (texts : List Str) :
    (linesRead buffer texts).flatten.countP inLine = buffer.countP inLine +
      texts.flatten.countP inLine := by
  induction texts generalizing buffer with
  | nil => cases buffer <;> simp [linesRead]
  | cons text texts ih =>
    have here := count_lines (buffer ++ text)
    rw [List.countP_append] at here
    rw [linesRead,List.flatten_append,List.countP_append,ih,List.flatten_cons,List.countP_append]
    omega

def SSEParser.handleLines : SSEParser → List Str → SSEParser × List SSEEvent
  | self, [] => (self,[])
  | self, line::lines =>
    let handled := self.handleLine line
    let later := SSEParser.handleLines handled.1 lines
    (later.1,handled.2.toList ++ later.2)

/-- The events of lines that end there. -/
def SSEParser.yields (self : SSEParser) (lines : List Str) : List SSEEvent :=
  (self.handleLines lines).2 ++ (self.handleLines lines).1.dispatch.2.toList

/-- A line is handled without a look at the buffer. -/
theorem handleLine_buffer (self : SSEParser) (buffer line : Str) :
    ({self with buffer := buffer} : SSEParser).handleLine line =
      ({(self.handleLine line).1 with buffer := buffer},(self.handleLine line).2) := by
  simp only [SSEParser.handleLine,SSEParser.dispatch]
  split_ifs <;> rfl

theorem handleLines_buffer (self : SSEParser) (buffer : Str) (lines : List Str) :
    ({self with buffer := buffer} : SSEParser).handleLines lines =
      ({(self.handleLines lines).1 with buffer := buffer},(self.handleLines lines).2) := by
  induction lines generalizing self with
  | nil => rfl
  | cons line lines ih => simp only [SSEParser.handleLines,handleLine_buffer,ih]

theorem handleLines_append (self : SSEParser) (first second : List Str) :
    self.handleLines (first ++ second) =
      (((self.handleLines first).1.handleLines second).1,
        (self.handleLines first).2 ++ ((self.handleLines first).1.handleLines second).2) := by
  induction first generalizing self with
  | nil => simp [SSEParser.handleLines]
  | cons line first ih => simp only [List.cons_append,SSEParser.handleLines,ih,List.append_assoc]

theorem yields_append (self : SSEParser) (first second : List Str) :
    self.yields (first ++ second) = (self.handleLines first).2 ++
      (self.handleLines first).1.yields second := by
  simp only [SSEParser.yields,handleLines_append,List.append_assoc]

theorem yields_buffer (self : SSEParser) (buffer : Str) (lines : List Str) :
    ({self with buffer := buffer} : SSEParser).yields lines = self.yields lines := by
  rw [SSEParser.yields,SSEParser.yields,handleLines_buffer]
  simp only [SSEParser.dispatch]
  split_ifs <;> rfl

theorem takeLines_lines (fuel : Nat) (self : SSEParser) (enough : self.buffer.length ≤ fuel) :
    self.takeLines fuel =
      ({(self.handleLines (lines self.buffer)).1 with buffer := remainder self.buffer},
      (self.handleLines (lines self.buffer)).2) := by
  induction fuel generalizing self with
  | zero =>
    have empty := List.length_eq_zero_iff.mp (Nat.le_zero.mp enough)
    rw [SSEParser.takeLines,empty]
    simp only [lines,remainder,splitLines,SSEParser.handleLines,List.length_nil]
    cases self
    rw [← empty]
  | succ fuel ih =>
    rw [SSEParser.takeLines]
    cases found : findLineEnd self.buffer with
    | none =>
      obtain ⟨none,all⟩ := split_none found
      rw [none,all]
      rfl
    | some pair =>
      obtain ⟨stop,next⟩ := pair
      have bound := lineEnd_bound found
      obtain ⟨lines,rest⟩ := split_some found
      simp only [handleLine_buffer]
      rw [ih _ (by rw [List.length_drop]; omega),lines,rest]
      simp only [SSEParser.handleLines,handleLines_buffer]

theorem feedText_lines (self : SSEParser) (text : Str) :
    self.feedText text = ({(self.handleLines (lines (self.buffer ++ text))).1 with buffer := remainder (self.buffer ++ text)},
      (self.handleLines (lines (self.buffer ++ text))).2) := by
  simp only [SSEParser.feedText]
  rw [takeLines_lines _ {self with buffer := self.buffer ++ text} (Nat.le_refl _)]
  simp only [handleLines_buffer]

theorem feed_lines (self : SSEParser) (chunk : Bytes) :
    self.feed chunk = ({(self.handleLines (lines (self.buffer ++ decodeReplace chunk))).1 with
        buffer := remainder (self.buffer ++ decodeReplace chunk)},
      (self.handleLines (lines (self.buffer ++ decodeReplace chunk))).2) := feedText_lines self (decodeReplace chunk)

theorem flush_lines (self : SSEParser) : self.flush.2 = self.yields (linesRead self.buffer []) := by
  rw [SSEParser.flush,linesRead]
  split_ifs with empty
  · rfl
  · simp only [SSEParser.yields,SSEParser.handleLines,handleLine_buffer]
    have held : (self.handleLine self.buffer).2 = none := by
      rw [SSEParser.handleLine,if_neg empty]
      dsimp only
      split_ifs <;> rfl
    rw [held]
    simp only [SSEParser.dispatch]
    split_ifs <;> rfl

theorem feedAll_lines (self : SSEParser) (chunks : List Bytes) :
    (self.feedAll chunks).2 ++ (self.feedAll chunks).1.flush.2 =
      self.yields (linesRead self.buffer (chunks.map decodeReplace)) := by
  induction chunks generalizing self with
  | nil => exact flush_lines self
  | cons chunk chunks ih =>
    rw [SSEParser.feedAll,List.map_cons,linesRead,yields_append,List.append_assoc,ih,feed_lines]
    simp only [yields_buffer]

/-- The lines of the chunks, and the line at their end. -/
def linesOf (chunks : List Bytes) : List Str := linesRead [] (chunks.map decodeReplace)

theorem parse_lines (chunks : List Bytes) : parse chunks = SSEParser.new.yields (linesOf chunks) :=
  feedAll_lines .new chunks

/-- No chunk ends inside a character, and every line end found before a cut stays one behind it. -/
def CleanlyCut (chunks : List Bytes) : Prop :=
  Undivided chunks ∧ Settles [] (chunks.map decodeReplace)

theorem linesOf_iff (chunks : List Bytes) :
    linesOf chunks = linesOf [chunks.flatten] ↔ CleanlyCut chunks := by
  have flat : (chunks.map decodeReplace).flatten = chunks.flatMap decodeReplace :=
    List.flatMap_def.symm
  have one : linesOf [chunks.flatten] = linesRead [] [decodeReplace chunks.flatten] := rfl
  by_cases undivided : Undivided chunks
  · have same := decode_undivided chunks undivided
    rw [one,← same,← flat,linesOf,linesRead_iff]
    exact ⟨fun settles => ⟨undivided,settles⟩,fun clean => clean.2⟩
  · refine iff_of_false (fun same => ?_) (fun clean => undivided clean.1)
    have fewer := @decode_divided inLine (by decide) chunks undivided
    have counts := congrArg (fun lines => lines.flatten.countP inLine) same
    simp only [linesOf,count_linesRead,flat,List.map_cons,List.map_nil,List.flatten_cons,
      List.flatten_nil,List.append_nil] at counts
    omega

/-- Chunks give the events of the octets in one piece where they are cleanly cut, and where they are not
the parser reads other lines. -/
theorem chunks_read_iff (chunks : List Bytes) :
    (CleanlyCut chunks → parse chunks = parse [chunks.flatten]) ∧
    (linesOf chunks = linesOf [chunks.flatten] ↔ CleanlyCut chunks) := by
  refine ⟨fun clean => ?_,linesOf_iff chunks⟩
  rw [parse_lines,parse_lines,(linesOf_iff chunks).mpr clean]

example : parse [lit "event: ping\r",lit "\ndata: \x7b\x7d\r\n\r\n"] =
    [⟨some (lit "ping"),lit "\x7b\x7d"⟩] := by decide

/-- A character that is cut in two becomes two replacement characters, and a line feed before a pair
divides the data in two where it is read before the pair has come. -/
theorem chunks_misread :
    parse [lit "data: " ++ [0xC3],[0xA9] ++ lit "\n\n"] ≠ parse [[lit "data: " ++ [0xC3],[0xA9] ++
      lit "\n\n"].flatten] ∧
      parse [lit "data: a\n",lit "data: b\r\n\r\n"] ≠ parse
        [[lit "data: a\n",lit "data: b\r\n\r\n"].flatten] := by
  decide

end QuilrMcp.Guardrail.Sse
