import QuilrMcp.Guardrail.Sse

/-! Lines as the grammar has them, cut at the leftmost line end, and the lines that the parser reads of
a text in one piece. They are the same where pairs come before line feeds and line feeds before
carriage returns, and the text does not end in a carriage return. -/
namespace QuilrMcp.Guardrail.SseLines
open Library.Text
open Sse

inductive Terminator
  | crlf
  | lf
  | cr
  deriving DecidableEq

def Terminator.codes : Terminator → Str
  | .crlf => [Sse.cr,Sse.lf]
  | .lf => [Sse.lf]
  | .cr => [Sse.cr]

/-- The order in which the parser looks for them. -/
def Terminator.rank : Terminator → Nat
  | .crlf => 0
  | .lf => 1
  | .cr => 2

/-- The line before the leftmost line end, that line end, and the text behind it. -/
def cutLine : Str → Option (Str × Terminator × Str)
  | [] => none
  | code::rest =>
    if code = Sse.lf then some ([],.lf,rest)
    else if code = Sse.cr then
      if rest.head? = some Sse.lf then some ([],.crlf,rest.tail) else some ([],.cr,rest)
    else (cutLine rest).map (fun cut => (code::cut.1,cut.2))

/-- The lines of a text, cut again and again; what is left at the end is a line as well. -/
def grammarLines : Nat → Str → List Str
  | 0, text => if text.isEmpty then [] else [text]
  | fuel + 1, text =>
    match cutLine text with
    | some cut => cut.1::grammarLines fuel cut.2.2
    | none => if text.isEmpty then [] else [text]

def linesByGrammar (text : Str) : List Str := grammarLines text.length text

/-- The line ends of a text, in order. -/
def terminators : Nat → Str → List Terminator
  | 0, _ => []
  | fuel + 1, text =>
    match cutLine text with
    | some cut => cut.2.1::terminators fuel cut.2.2
    | none => []

/-- Pairs before line feeds before carriage returns, and none of these at the end. -/
def InOrder (text : Str) : Prop :=
  ((terminators text.length text).map Terminator.rank).Pairwise (· ≤ ·) ∧
  text.getLast? ≠ some Sse.cr

instance (text : Str) : Decidable (InOrder text) := inferInstanceAs (Decidable (_ ∧ _))

variable {text line rest : Str} {terminator : Terminator}

/-- The line has no line end in it, and a carriage return alone is not followed by a line feed. -/
theorem cutLine_some (found : cutLine text = some (line,terminator,rest)) :
    text = line ++ (terminator.codes ++ rest) ∧ Sse.lf ∉ line ∧ Sse.cr ∉ line ∧
      (terminator = .cr → rest.head? ≠ some Sse.lf) := by
  induction text generalizing line with
  | nil => contradiction
  | cons code text ih =>
    rw [cutLine] at found
    split_ifs at found with feed carriage pair
    · simp only [Option.some.injEq,Prod.mk.injEq] at found
      obtain ⟨rfl,rfl,rfl⟩ := found
      exact ⟨by rw [feed]; rfl,List.not_mem_nil,List.not_mem_nil,fun same => Terminator.noConfusion same⟩
    · simp only [Option.some.injEq,Prod.mk.injEq] at found
      obtain ⟨rfl,rfl,rfl⟩ := found
      obtain ⟨tail,rfl⟩ := List.head?_eq_some_iff.mp pair
      exact ⟨by rw [carriage]; rfl,List.not_mem_nil,List.not_mem_nil,fun same => Terminator.noConfusion same⟩
    · simp only [Option.some.injEq,Prod.mk.injEq] at found
      obtain ⟨rfl,rfl,rfl⟩ := found
      exact ⟨by rw [carriage]; rfl,List.not_mem_nil,List.not_mem_nil,fun _ => pair⟩
    · obtain ⟨⟨line',cut⟩,later,same⟩ := Option.map_eq_some_iff.mp found
      simp only [Prod.mk.injEq] at same
      obtain ⟨rfl,rfl⟩ := same
      obtain ⟨shape,feeds,carriages,alone⟩ := ih later
      refine ⟨by rw [shape]; rfl,?_,?_,alone⟩
      · rw [List.mem_cons,not_or]
        exact ⟨Ne.symm feed,feeds⟩
      · rw [List.mem_cons,not_or]
        exact ⟨Ne.symm carriage,carriages⟩

theorem cutLine_none (none_ : cutLine text = none) : Sse.lf ∉ text ∧ Sse.cr ∉ text := by
  induction text with
  | nil => exact ⟨List.not_mem_nil,List.not_mem_nil⟩
  | cons code text ih =>
    rw [cutLine] at none_
    split_ifs at none_ with feed carriage
    obtain ⟨feeds,carriages⟩ := ih (Option.map_eq_none_iff.mp none_)
    rw [List.mem_cons,List.mem_cons,not_or,not_or]
    exact ⟨⟨Ne.symm feed,feeds⟩,Ne.symm carriage,carriages⟩

theorem cutLine_shorter (found : cutLine text = some (line,terminator,rest)) :
    rest.length < text.length := by
  have shape := congrArg List.length (cutLine_some found).1
  rw [List.length_append,List.length_append] at shape
  cases terminator <;> simp only [Terminator.codes,List.length_cons,List.length_nil] at shape <;>
    omega

theorem grammarLines_fuel (fuel : Nat) (text : Str) (enough : text.length ≤ fuel) :
    grammarLines fuel text = linesByGrammar text ∧
    terminators fuel text = terminators text.length text := by
  suffices same : ∀ fuel, ∀ text : Str, text.length ≤ fuel → ∀ fuel', text.length ≤ fuel' →
      grammarLines fuel text = grammarLines fuel' text ∧
      terminators fuel text = terminators fuel' text from
    same fuel text enough _ (Nat.le_refl _)
  intro fuel
  induction fuel with
  | zero =>
    intro text empty fuel' _
    obtain rfl := List.length_eq_zero_iff.mp (Nat.le_zero.mp empty)
    cases fuel' <;> exact ⟨rfl,rfl⟩
  | succ fuel ih =>
    intro text enough fuel' enough'
    cases found : cutLine text with
    | none =>
      cases fuel' with
      | zero =>
        obtain rfl := List.length_eq_zero_iff.mp (Nat.le_zero.mp enough')
        exact ⟨rfl,rfl⟩
      | succ fuel' => simp only [grammarLines,terminators,found,and_self]
    | some cut =>
      obtain ⟨line,terminator,rest⟩ := cut
      have short := cutLine_shorter found
      cases fuel' with
      | zero => omega
      | succ fuel' =>
        obtain ⟨lines,kinds⟩ := ih rest (by omega) fuel' (by omega)
        simp only [grammarLines,terminators,found,lines,kinds,and_self]

theorem grammar_some (found : cutLine text = some (line,terminator,rest)) :
    linesByGrammar text = line::linesByGrammar rest ∧
      terminators text.length text = terminator::terminators rest.length rest := by
  have short := cutLine_shorter found
  obtain ⟨size,shape⟩ := Nat.exists_eq_succ_of_ne_zero (show text.length ≠ 0 by omega)
  obtain ⟨lines,kinds⟩ := grammarLines_fuel size rest (by omega)
  rw [linesByGrammar,shape,grammarLines,terminators,found]
  simp only [lines,kinds,and_self]

theorem grammar_none (none_ : cutLine text = none) :
    linesByGrammar text = (if text.isEmpty then [] else [text]) ∧
    terminators text.length text = [] := by
  rw [linesByGrammar]
  cases shape : text.length with
  | zero => exact ⟨rfl,rfl⟩
  | succ size => simp only [grammarLines,terminators,none_,and_self]

private theorem infix_behind {code : Nat} {part line rest : Str} (absent : code ∉ line) :
    code::part <:+: line ++ rest ↔ code::part <:+: rest := by
  induction line with
  | nil => rfl
  | cons first line ih =>
    rw [List.mem_cons,not_or] at absent
    rw [List.cons_append,List.infix_cons_iff,ih absent.2,List.cons_prefix_cons]
    exact ⟨fun either => either.resolve_left (fun both => absent.1 both.1),Or.inr⟩

/-- The kinds of line ends in a text, by the codes in it. -/
theorem terminators_codes (text : Str) :
    ([Sse.cr,Sse.lf] <:+: text ↔ .crlf ∈ terminators text.length text) ∧
    (Sse.lf ∈ text ↔ .crlf ∈ terminators text.length text ∨
      .lf ∈ terminators text.length text) := by
  cases found : cutLine text with
  | none =>
    obtain ⟨feeds,carriages⟩ := cutLine_none found
    rw [(grammar_none found).2]
    refine ⟨iff_of_false (fun inside => feeds (inside.subset (by simp))) List.not_mem_nil,?_⟩
    exact iff_of_false feeds (fun either => either.elim List.not_mem_nil List.not_mem_nil)
  | some cut =>
    obtain ⟨line,terminator,rest⟩ := cut
    obtain ⟨shape,feeds,carriages,alone⟩ := cutLine_some found
    have short := cutLine_shorter found
    obtain ⟨pairs,lfs⟩ := terminators_codes rest
    have apart : Sse.cr ≠ Sse.lf := by decide
    rw [(grammar_some found).2,shape,infix_behind carriages,List.mem_append]
    cases terminator with
    | crlf => simp [Terminator.codes,List.infix_cons_iff]
    | lf => simp [Terminator.codes,List.infix_cons_iff,apart,pairs]
    | cr =>
      have single : ¬ [Sse.lf] <+: rest := by
        intro ahead
        obtain ⟨tail,rfl⟩ := ahead
        exact alone rfl rfl
      simp [Terminator.codes,List.infix_cons_iff,List.cons_prefix_cons,single,pairs,lfs,feeds,
        Ne.symm apart]
termination_by text.length

theorem read_some {stop next : Nat} (found : findLineEnd text = some (stop,next)) :
    linesRead [] [text] = text.take stop::linesRead [] [text.drop next] := by
  obtain ⟨first,later⟩ := split_some found
  simp only [linesRead,List.nil_append,first,later,List.cons_append]

theorem read_none (none_ : findLineEnd text = none) :
    linesRead [] [text] = if text.isEmpty then [] else [text] := by
  obtain ⟨first,later⟩ := split_none none_
  rw [linesRead,List.nil_append,first,later,linesRead,List.nil_append]

private theorem find_behind {code : Nat} {part line rest : Str} (absent : code ∉ line) :
    find (code::part) (line ++ rest) = (find (code::part) rest).map (line.length + ·) := by
  induction line with
  | nil => simp
  | cons first line ih =>
    rw [List.mem_cons,not_or] at absent
    have other : ¬ (code::part).isPrefixOf (first::(line ++ rest)) = true := by
      rw [List.isPrefixOf_iff_prefix,List.cons_prefix_cons]
      exact fun both => absent.1 both.1
    rw [List.cons_append,find,if_neg other,ih absent.2,Option.map_map]
    congr 1
    funext i
    simp only [Function.comp,List.length_cons]
    omega

private theorem find_ahead {part rest : Str} (filled : part ≠ []) :
    find part (part ++ rest) = some 0 := by
  obtain ⟨code,more,rfl⟩ := List.exists_cons_of_ne_nil filled
  rw [List.cons_append,find,if_pos]
  rw [List.isPrefixOf_iff_prefix]
  exact List.prefix_append (code::more) rest

private theorem ranks (kinds : List Terminator) (terminator : Terminator) :
    (∀ kind ∈ kinds, terminator.rank ≤ kind.rank) ↔
      (terminator ≠ .crlf → .crlf ∉ kinds) ∧ (terminator = .cr → .lf ∉ kinds) := by
  constructor
  · intro least
    refine ⟨fun other listed => ?_,fun same listed => ?_⟩
    · have bound := least .crlf listed
      cases terminator with
      | crlf => exact other rfl
      | lf => exact absurd bound (by decide)
      | cr => exact absurd bound (by decide)
    · have bound := least .lf listed
      rw [same] at bound
      exact absurd bound (by decide)
  · rintro ⟨pairs,feeds⟩ kind listed
    cases kind with
    | crlf =>
      cases terminator with
      | crlf => exact Nat.le_refl _
      | lf => exact absurd listed (pairs (by decide))
      | cr => exact absurd listed (pairs (by decide))
    | lf =>
      cases terminator with
      | cr => exact absurd listed (feeds rfl)
      | crlf => decide
      | lf => decide
    | cr => cases terminator <;> decide

/-- The parser finds the leftmost line end where no other kind that it prefers comes later. -/
theorem findLineEnd_first (found : cutLine text = some (line,terminator,rest))
    (least : ∀ kind ∈ terminators rest.length rest, terminator.rank ≤ kind.rank)
    (more : terminator = .cr → rest ≠ []) :
    findLineEnd text = some (line.length,line.length + terminator.codes.length) := by
  obtain ⟨shape,feeds,carriages,alone⟩ := cutLine_some found
  obtain ⟨pairs,lfs⟩ := terminators_codes text
  obtain ⟨unpaired,unfed⟩ := (ranks _ _).mp least
  rw [(grammar_some found).2,List.mem_cons] at pairs lfs
  have here : find terminator.codes text = some line.length := by
    rw [shape]
    cases terminator with
    | crlf => rw [Terminator.codes,find_behind carriages,find_ahead (List.cons_ne_nil _ _)]; rfl
    | lf => rw [Terminator.codes,find_behind feeds,find_ahead (List.cons_ne_nil _ _)]; rfl
    | cr => rw [Terminator.codes,find_behind carriages,find_ahead (List.cons_ne_nil _ _)]; rfl
  cases terminator with
  | crlf => exact findLineEnd_crlf here
  | lf =>
    apply findLineEnd_lf _ here
    rw [pairs,not_or]
    exact ⟨by decide,unpaired (by decide)⟩
  | cr =>
    apply findLineEnd_cr _ here
    · have size := congrArg List.length shape
      have some_ := List.length_pos_of_ne_nil (more rfl)
      rw [List.length_append,List.length_append] at size
      simp only [Terminator.codes,List.length_cons,List.length_nil] at size
      omega
    · rw [lfs,List.mem_cons,not_or,not_or,not_or]
      exact ⟨⟨by decide,unpaired (by decide)⟩,by decide,unfed rfl⟩

private theorem ends_line {code : Nat} {front back line after : Str}
    (shape : front ++ code::back = line ++ after) (absent : code ∉ line) :
    line.length < front.length ∨ code::back = after := by
  rcases List.append_eq_append_iff.mp shape with ⟨more,first,second⟩ | ⟨more,first,second⟩
  · cases more with
    | nil => exact Or.inr second
    | cons head more =>
      obtain ⟨rfl,_⟩ := List.cons.inj second
      exact absurd (by simp [first]) absent
  · cases more with
    | nil => exact Or.inr second.symm
    | cons head more =>
      left
      rw [first,List.length_append,List.length_cons]
      omega

/-- Otherwise it finds one behind, or none at the end of the text, and the line goes over the leftmost. -/
theorem read_longer (found : cutLine text = some (line,terminator,rest))
    (other : ¬ ((∀ kind ∈ terminators rest.length rest, terminator.rank ≤ kind.rank) ∧
      (terminator = .cr → rest ≠ []))) :
    ∃ first more, linesRead [] [text] = first::more ∧ line.length < first.length := by
  obtain ⟨shape,feeds,carriages,alone⟩ := cutLine_some found
  obtain ⟨pairs,lfs⟩ := terminators_codes text
  rw [(grammar_some found).2,List.mem_cons] at pairs lfs
  rw [ranks] at other
  have short : line.length < text.length := by
    rw [shape,List.length_append]
    cases terminator <;> simp [Terminator.codes]
  cases ended : findLineEnd text with
  | none =>
    have filled : text.isEmpty = false := by
      rw [List.isEmpty_eq_false_iff]
      exact List.ne_nil_of_length_pos (by omega)
    exact ⟨text,[],by rw [read_none ended,filled]; rfl,short⟩
  | some pair =>
    obtain ⟨stop,next⟩ := pair
    refine ⟨_,_,read_some ended,?_⟩
    have bound := lineEnd_bound ended
    rw [List.length_take,Nat.min_eq_left (by omega)]
    have apart : Sse.cr ≠ Sse.lf := by decide
    clear found short bound
    -- the end that is found stands where the leftmost does only if it is the leftmost
    cases lineEnd_of_found ended with
    | crlf front back _ =>
      apply (ends_line shape carriages).resolve_right
      intro same
      cases terminator with
      | crlf => exact other ⟨⟨fun unequal => absurd rfl unequal,fun equal =>
          Terminator.noConfusion equal⟩,fun equal => Terminator.noConfusion equal⟩
      | lf => exact apart (List.cons.inj same).1
      | cr =>
        apply alone rfl
        rw [← show Sse.lf::back = rest from (List.cons.inj same).2]
        rfl
    | lf front back unpaired _ =>
      apply (ends_line shape feeds).resolve_right
      intro same
      rw [pairs,not_or] at unpaired
      cases terminator with
      | crlf => exact unpaired.1 rfl
      | lf => exact other ⟨⟨fun _ => unpaired.2,fun equal => Terminator.noConfusion equal⟩,
          fun equal => Terminator.noConfusion equal⟩
      | cr => exact apart (List.cons.inj same).1.symm
    | cr front back unfed filled _ =>
      apply (ends_line shape carriages).resolve_right
      intro same
      rw [lfs,List.mem_cons,not_or,not_or,not_or] at unfed
      cases terminator with
      | crlf => exact unfed.1.1 rfl
      | lf => exact unfed.2.1 rfl
      | cr =>
        refine other ⟨⟨fun _ => unfed.1.2,fun _ => unfed.2.2⟩,fun _ => ?_⟩
        rwa [← show back = rest from (List.cons.inj same).2]

/-- A text is in order if its first line end is the least and is not a carriage return at the end, and the rest is in order. -/
theorem inOrder_some (found : cutLine text = some (line,terminator,rest)) :
    InOrder text ↔ ((∀ kind ∈ terminators rest.length rest, terminator.rank ≤ kind.rank) ∧
      (terminator = .cr → rest ≠ [])) ∧
      InOrder rest := by
  have shape := (cutLine_some found).1
  rw [InOrder,InOrder,(grammar_some found).2,List.map_cons,List.pairwise_cons]
  have last : text.getLast? ≠ some Sse.cr ↔ (terminator = .cr → rest ≠ []) ∧
    rest.getLast? ≠ some Sse.cr := by
    rw [shape]
    cases rest with
    | nil => cases terminator <;> simp [Terminator.codes,Sse.lf,Sse.cr]
    | cons code rest =>
      rw [← List.append_assoc,List.getLast?_append_of_ne_nil _ (List.cons_ne_nil code rest)]
      simp
  rw [last,List.forall_mem_map]
  tauto

/-- The parser reads the lines that the grammar has exactly where the line ends are in order. -/
theorem read_by_grammar (text : Str) :
    linesRead [] [text] = linesByGrammar text ↔ InOrder text := by
  cases found : cutLine text with
  | none =>
    obtain ⟨feeds,carriages⟩ := cutLine_none found
    have unended : findLineEnd text = none := by
      rw [findLineEnd,(find_none_iff _ _).mpr (fun inside => feeds (inside.subset (by simp))),
        (find_none_iff _ _).mpr (fun inside => feeds ((infix_one Sse.lf text).mp inside)),
        (find_none_iff _ _).mpr (fun inside => carriages ((infix_one Sse.cr text).mp inside))]
    rw [read_none unended,(grammar_none found).1,InOrder,(grammar_none found).2]
    exact iff_of_true rfl ⟨List.Pairwise.nil,fun last => carriages (List.mem_of_getLast? last)⟩
  | some cut =>
    obtain ⟨line,terminator,rest⟩ := cut
    have short := cutLine_shorter found
    rw [inOrder_some found,(grammar_some found).1]
    by_cases least : (∀ kind ∈ terminators rest.length rest, terminator.rank ≤ kind.rank) ∧
      (terminator = .cr → rest ≠ [])
    · have shape := (cutLine_some found).1
      rw [read_some (findLineEnd_first found least.1 least.2),iff_true_intro least,true_and]
      rw [show text.drop (line.length + terminator.codes.length) =
        rest from by rw [shape,drop_lineEnd],
        show text.take line.length = line from by rw [shape,List.take_left],List.cons_inj_right]
      exact read_by_grammar rest
    · obtain ⟨first,more,read,longer⟩ := read_longer found least
      rw [read]
      apply iff_of_false
      · intro same
        rw [(List.cons.inj same).1] at longer
        exact Nat.lt_irrefl _ longer
      · exact fun both => least both.1
termination_by text.length

/-- The events of a text fed in one piece, the flush behind it included. -/
def parseText (text : Str) : List SSEEvent :=
  let fed := SSEParser.new.feedText text
  fed.2 ++ fed.1.flush.2

theorem parseText_lines (text : Str) :
    parseText text = SSEParser.new.yields (linesRead [] [text]) := by
  rw [parseText,linesRead,yields_append,List.nil_append]
  simp only [feedText_lines,flush_lines,yields_buffer]
  rfl

def Unbroken (line : Str) : Prop := Sse.cr ∉ line ∧ Sse.lf ∉ line

theorem unbroken_part {part line : Str} (unbroken : Unbroken line) (inside : part ⊆ line) :
    Unbroken part :=
  ⟨fun member => unbroken.1 (inside member),fun member => unbroken.2 (inside member)⟩

theorem grammar_unbroken (text : Str) : ∀ line ∈ linesByGrammar text, Unbroken line := by
  intro line member
  cases found : cutLine text with
  | none =>
    rw [(grammar_none found).1] at member
    split_ifs at member
    · contradiction
    · obtain rfl := List.mem_singleton.mp member
      exact (cutLine_none found).symm
  | some cut =>
    obtain ⟨first,terminator,rest⟩ := cut
    have short := cutLine_shorter found
    obtain ⟨shape,feeds,carriages,alone⟩ := cutLine_some found
    rw [(grammar_some found).1] at member
    rcases List.mem_cons.mp member with rfl | later
    · exact ⟨carriages,feeds⟩
    · exact grammar_unbroken rest line later
termination_by text.length

/-- An event whose name is within one line and whose data is lines. -/
structure Event (event : SSEEvent) : Prop where
  name : ∀ name ∈ event.event, Unbroken name
  data : Sse.cr ∉ event.data

/-- What the parser has of an event to come. -/
structure Unfinished (parser : SSEParser) : Prop where
  name : ∀ name ∈ parser.event, Unbroken name
  data : ∀ line ∈ parser.data, Unbroken line

theorem value_part (line : Str) : fieldValue line ⊆ line := by
  have value : ((line.dropWhile (· != 58)).drop 1) ⊆ line :=
    fun _ member => (List.dropWhile_sublist _).subset (List.mem_of_mem_drop member)
  simp only [fieldValue]
  split_ifs
  · exact fun _ member => value (List.mem_of_mem_drop member)
  · exact value

theorem mem_intercalate {code separator : Nat} {lines : List Str}
    (member : code ∈ [separator].intercalate lines) :
    code = separator ∨ ∃ line ∈ lines, code ∈ line := by
  induction lines with
  | nil => contradiction
  | cons line lines ih =>
    cases lines with
    | nil =>
      rw [List.intercalate_singleton] at member
      exact Or.inr ⟨line,List.mem_cons_self,member⟩
    | cons second lines =>
      rw [List.intercalate_cons_cons,List.mem_append,List.mem_append,List.mem_singleton] at member
      rcases member with (here | rfl) | later
      · exact Or.inr ⟨line,List.mem_cons_self,here⟩
      · exact Or.inl rfl
      · apply (ih later).imp_right
        rintro ⟨other,listed,inside⟩
        exact ⟨other,List.mem_cons_of_mem _ listed,inside⟩

variable {parser : SSEParser}

theorem dispatch_unbroken (unfinished : Unfinished parser) :
    Unfinished parser.dispatch.1 ∧ ∀ event ∈ parser.dispatch.2, Event event := by
  rw [SSEParser.dispatch]
  split_ifs
  · exact ⟨unfinished,fun _ none => absurd none (by simp)⟩
  · refine ⟨⟨fun _ none => absurd none (by simp),List.forall_mem_nil _⟩,?_⟩
    rintro event ⟨⟩
    refine ⟨unfinished.name,fun inside => ?_⟩
    rcases mem_intercalate inside with same | ⟨line,listed,member⟩
    · exact absurd same (by decide)
    · exact (unfinished.data line listed).1 member

theorem handleLine_unbroken {line : Str} (unfinished : Unfinished parser)
    (unbroken : Unbroken line) :
    Unfinished (parser.handleLine line).1 ∧ ∀ event ∈ (parser.handleLine line).2, Event event := by
  have value := unbroken_part unbroken (value_part line)
  simp only [SSEParser.handleLine]
  split_ifs
  · exact dispatch_unbroken unfinished
  · exact ⟨unfinished,fun _ none => absurd none (by simp)⟩
  · refine ⟨⟨?_,unfinished.data⟩,fun _ none => absurd none (by simp)⟩
    rintro name ⟨⟩
    exact value
  · refine ⟨⟨unfinished.name,fun line listed => ?_⟩,fun _ none => absurd none (by simp)⟩
    rcases List.mem_append.mp listed with before | here
    · exact unfinished.data line before
    · obtain rfl := List.mem_singleton.mp here
      exact value
  · exact ⟨unfinished,fun _ none => absurd none (by simp)⟩

theorem handleLines_unbroken {lines : List Str} (unfinished : Unfinished parser)
    (unbroken : ∀ line ∈ lines, Unbroken line) :
    Unfinished (parser.handleLines lines).1 ∧ ∀ event ∈ (parser.handleLines lines).2,
      Event event := by
  induction lines generalizing parser with
  | nil => exact ⟨unfinished,List.forall_mem_nil _⟩
  | cons line lines ih =>
    obtain ⟨first,rest⟩ := List.forall_mem_cons.mp unbroken
    obtain ⟨next,events⟩ := handleLine_unbroken unfinished first
    obtain ⟨last,later⟩ := ih next rest
    refine ⟨last,fun event member => ?_⟩
    rcases List.mem_append.mp member with here | behind
    · exact events event (Option.mem_toList.mp here)
    · exact later event behind

/-- A text in one piece is cut as the grammar says, so that no line, no name and no data has a carriage
return and no line or name a line feed, exactly where its line ends are in order. -/
theorem lines_cut_iff (text : Str) :
    (linesRead [] [text] = linesByGrammar text ∧ (∀ line ∈ linesRead [] [text], Unbroken line) ∧
      ∀ event ∈ parseText text, Event event) ↔ InOrder text := by
  rw [← read_by_grammar]
  refine ⟨fun cut => cut.1,fun same => ?_⟩
  have unbroken : ∀ line ∈ linesRead [] [text], Unbroken line := by
    rw [same]
    exact grammar_unbroken text
  refine ⟨same,unbroken,fun event member => ?_⟩
  rw [parseText_lines,SSEParser.yields,List.mem_append,Option.mem_toList] at member
  have new : Unfinished SSEParser.new := ⟨fun _ none => absurd none (by simp [SSEParser.new]),
    List.forall_mem_nil _⟩
  obtain ⟨unfinished,events⟩ := handleLines_unbroken new unbroken
  exact member.elim (events event) ((dispatch_unbroken unfinished).2 event)

/-- A line feed before a pair is not seen: the number is in the name of the event. -/
theorem lines_merged : ¬ (linesRead [] [lit "event: x\ndata: 123-45-6789\r\n\r\n"] =
      linesByGrammar (lit "event: x\ndata: 123-45-6789\r\n\r\n")) ∧
    parseText (lit "event: x\ndata: 123-45-6789\r\n\r\n") =
      [⟨some (lit "x\ndata: 123-45-6789"),[]⟩] := by
  decide

end QuilrMcp.Guardrail.SseLines
