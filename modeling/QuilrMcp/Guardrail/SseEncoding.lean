import QuilrMcp.Guardrail.SseLines
import QuilrMcp.Library.Unicode

/-! Events written as octets and read back by the parser, in whatever pieces the octets come as long as
no piece ends inside a character. -/
namespace QuilrMcp.Guardrail.SseEncoding
open Library Library.Text
open Library.Utf8 (decodeReplace Undivided decode_undivided)
open Sse SseLines

/-- The lines of an event; every line of its data has a prefix of its own. -/
def eventLines (self : SSEEvent) : List Str :=
  (match self.event with
    | some name => if name.isEmpty then [] else [lit "event: " ++ name]
    | none => []) ++ (Unicode.split lf self.data).map (lit "data: " ++ ·)

def encodeText (self : SSEEvent) : Str := [lf].intercalate (eventLines self) ++ [lf,lf]

def encode (self : SSEEvent) : Option Bytes := Encoding.encodeUtf8 (encodeText self)

/-- An event that can be read back: its name is not empty and within one line, and its data has no
carriage return. -/
structure Written (event : SSEEvent) : Prop where
  filled : ∀ name ∈ event.event, name ≠ []
  name : ∀ name ∈ event.event, Unbroken name
  data : Sse.cr ∉ event.data

variable {line rest text : Str} {lines : List Str} {event : SSEEvent}

def fed (lines : List Str) : Str := lines.flatMap (· ++ [lf])

theorem cutLine_fed (unbroken : Unbroken line) (rest : Str) :
    cutLine (line ++ lf::rest) = some (line,.lf,rest) := by
  induction line with
  | nil => rfl
  | cons code line ih =>
    obtain ⟨carriages,feeds⟩ := unbroken
    rw [List.mem_cons,not_or] at carriages feeds
    rw [List.cons_append,cutLine,if_neg (Ne.symm feeds.1),if_neg (Ne.symm carriages.1),
      ih ⟨carriages.2,feeds.2⟩]
    rfl

theorem fed_cons (line : Str) (lines : List Str) : fed (line::lines) = line ++ lf::fed lines := by
  simp [fed]

theorem grammar_fed (unbroken : ∀ line ∈ lines, Unbroken line) :
    linesByGrammar (fed lines) = lines ∧ ∀ kind ∈ terminators (fed lines).length (fed lines),
      kind = .lf := by
  induction lines with
  | nil => exact ⟨rfl,List.forall_mem_nil _⟩
  | cons line lines ih =>
    obtain ⟨first,later⟩ := List.forall_mem_cons.mp unbroken
    obtain ⟨read,kinds⟩ := ih later
    have found := cutLine_fed first (fed lines)
    rw [← fed_cons] at found
    rw [(grammar_some found).1,(grammar_some found).2,read]
    exact ⟨rfl,List.forall_mem_cons.mpr ⟨rfl,kinds⟩⟩

theorem fed_plain (unbroken : ∀ line ∈ lines, Unbroken line) : Sse.cr ∉ fed lines := by
  intro member
  obtain ⟨line,listed,inside⟩ := List.mem_flatMap.mp member
  rcases List.mem_append.mp inside with here | ending
  · exact (unbroken line listed).1 here
  · exact absurd (List.mem_singleton.mp ending) (by decide)

theorem read_fed (unbroken : ∀ line ∈ lines, Unbroken line) : linesRead [] [fed lines] = lines := by
  obtain ⟨read,kinds⟩ := grammar_fed unbroken
  rw [(read_by_grammar (fed lines)).mpr,read]
  refine ⟨?_,fun last => fed_plain unbroken (List.mem_of_getLast? last)⟩
  rw [List.pairwise_map]
  apply List.pairwise_of_forall_mem_list
  intro first listed second listed'
  exact Nat.le_of_eq (congrArg SseLines.Terminator.rank ((kinds first listed).trans
    (kinds second listed').symm))

/-- Cuts change no line of a text without carriage returns. -/
theorem settles_plain (before : Str) (texts : List Str) (plain : Sse.cr ∉ before ++ texts.flatten) :
    Settles before texts := by
  induction texts generalizing before with
  | nil => trivial
  | cons text texts ih =>
    rw [List.flatten_cons,← List.append_assoc] at plain
    refine ⟨⟨fun front back shape _ _ inside => ?_,fun front back shape _ _ => ?_⟩,
      ih (before ++ text) plain⟩
    · have member : Sse.cr ∈ back ++ text := inside.subset List.mem_cons_self
      apply plain
      rw [shape]
      simp only [List.mem_append,List.mem_cons] at member ⊢
      tauto
    · apply absurd _ plain
      rw [shape]
      simp

theorem fed_intercalate (filled : lines ≠ []) : [lf].intercalate lines ++ [lf] = fed lines := by
  induction lines with
  | nil => contradiction
  | cons line lines ih =>
    cases lines with
    | nil => simp [fed]
    | cons second lines =>
      rw [List.intercalate_cons_cons,fed_cons,← ih (List.cons_ne_nil _ _)]
      simp

def parts (self : SSEEvent) : List Str := eventLines self ++ [[]]

theorem encodeText_fed (self : SSEEvent) : encodeText self = fed (parts self) := by
  have filled : eventLines self ≠ [] := by
    intro empty
    have none_ := List.map_eq_nil_iff.mp (List.append_eq_nil_iff.mp empty).2
    rw [Unicode.split_eq] at none_
    exact List.splitOn_ne_nil _ _ none_
  have ended : fed (parts self) = fed (eventLines self) ++ [lf] := by simp [fed,parts]
  rw [encodeText,ended,← fed_intercalate filled]
  simp

theorem parts_unbroken (written : Written event) : ∀ line ∈ parts event, Unbroken line := by
  intro line listed
  have joined {start line : Str} (first : Unbroken start) (second : Unbroken line) : Unbroken
    (start ++ line) := by
    rw [Unbroken,List.mem_append,List.mem_append,not_or,not_or]
    exact ⟨⟨first.1,second.1⟩,first.2,second.2⟩
  rcases List.mem_append.mp listed with inside | ending
  · rcases List.mem_append.mp inside with named | data
    · cases name : event.event with
      | none =>
        rw [name] at named
        contradiction
      | some text =>
        simp only [name,List.isEmpty_iff,if_neg (written.filled text name)] at named
        obtain rfl := List.mem_singleton.mp named
        exact joined ⟨by decide,by decide⟩ (written.name text name)
    · obtain ⟨part,here,rfl⟩ := List.mem_map.mp data
      apply joined ⟨by decide,by decide⟩
      exact ⟨fun member => written.data (Unicode.split_part here member).1,fun member =>
        (Unicode.split_part here member).2 rfl⟩
  · obtain rfl := List.mem_singleton.mp ending
    exact ⟨List.not_mem_nil,List.not_mem_nil⟩

theorem handle_name (parser : SSEParser) (name : Str) :
    parser.handleLine (lit "event: " ++ name) = ({parser with event := some name},none) := by
  rw [show lit "event: " = [101,118,101,110,116,58,32] by decide]
  have field : ([101,118,101,110,116,58,32] ++ name).takeWhile (· != 58) = lit "event" := rfl
  have value : fieldValue ([101,118,101,110,116,58,32] ++ name) = name := rfl
  simp only [SSEParser.handleLine,field,value]
  rfl

theorem handle_data (parser : SSEParser) (line : Str) : parser.handleLine (lit "data: " ++ line) =
      ({parser with data := parser.data ++ [line]},none) := by
  rw [show lit "data: " = [100,97,116,97,58,32] by decide]
  have field : ([100,97,116,97,58,32] ++ line).takeWhile (· != 58) = lit "data" := rfl
  have value : fieldValue ([100,97,116,97,58,32] ++ line) = line := rfl
  simp only [SSEParser.handleLine,field,value]
  rfl

theorem handle_datas (parser : SSEParser) (lines : List Str) :
    parser.handleLines (lines.map (lit "data: " ++ ·)) =
      ({parser with data := parser.data ++ lines},[]) := by
  induction lines generalizing parser with
  | nil => simp [SSEParser.handleLines]
  | cons line lines ih => simp only [List.map_cons,SSEParser.handleLines,handle_data,ih,
      List.append_assoc]; rfl

/-- The lines of an event give that event and leave the parser as it was. -/
theorem handle_parts (written : Written event) :
    SSEParser.new.handleLines (parts event) = (.new,[event]) := by
  have named : SSEParser.new.handleLines (match event.event with
      | some name => if name.isEmpty then [] else [lit "event: " ++ name]
      | none => []) = ({SSEParser.new with event := event.event},[]) := by
    cases name : event.event with
    | none => rfl
    | some text =>
      simp only [List.isEmpty_iff,if_neg (written.filled text name),
        SSEParser.handleLines,handle_name]
      rfl
  have filled : (Unicode.split lf event.data).isEmpty = false := by
    rw [Unicode.split_eq,List.isEmpty_eq_false_iff]
    exact List.splitOn_ne_nil _ _
  rw [parts,eventLines,handleLines_append,handleLines_append,named,handle_datas]
  simp only [SSEParser.handleLines,SSEParser.handleLine,List.isEmpty_nil,if_true,SSEParser.dispatch,
    SSEParser.new,
    List.nil_append,filled,Bool.false_and,Bool.false_eq_true,if_false,Option.toList_some]
  rw [Unicode.split_eq,List.intercalate_splitOn]
  rfl

theorem handle_events {events : List SSEEvent} (written : ∀ event ∈ events, Written event) :
    SSEParser.new.handleLines (events.flatMap parts) = (.new,events) := by
  induction events with
  | nil => rfl
  | cons event events ih =>
    obtain ⟨first,later⟩ := List.forall_mem_cons.mp written
    rw [List.flatMap_cons,handleLines_append,handle_parts first,ih later]
    rfl

theorem encode_append (first second : Str) {one two : Bytes}
    (encoded : Encoding.encodeUtf8 first = some one)
    (encoded' : Encoding.encodeUtf8 second = some two) : Encoding.encodeUtf8 (first ++ second) =
      some (one ++ two) := by
  simp only [Encoding.encodeUtf8,Option.ite_none_left_eq_some,Option.some.injEq,List.any_append,
    Bool.or_eq_true,not_or,List.flatMap_append] at encoded encoded' ⊢
  exact ⟨⟨encoded.1,encoded'.1⟩,by rw [encoded.2,encoded'.2]⟩

theorem encode_events {events : List SSEEvent} {encodings : List Bytes}
    (encoded : events.mapM encode = some encodings) :
    Encoding.encodeUtf8 (events.flatMap encodeText) = some encodings.flatten := by
  induction events generalizing encodings with
  | nil =>
    cases encoded
    rfl
  | cons event events ih =>
    rw [List.mapM_cons,Option.bind_eq_bind,Option.bind_eq_some_iff] at encoded
    obtain ⟨one,first,later⟩ := encoded
    rw [Option.bind_eq_bind,Option.bind_eq_some_iff] at later
    obtain ⟨others,rest,same⟩ := later
    cases same
    exact encode_append _ _ first (ih rest)

/-- Events that are written and cut between characters are read as they were. -/
theorem parse_encoded (events : List SSEEvent) (encodings chunks : List Bytes)
    (written : ∀ event ∈ events, Written event)
    (characters : ∀ code ∈ events.flatMap encodeText, code < 0x110000)
    (encoded : events.mapM encode = some encodings) (cut : chunks.flatten = encodings.flatten)
    (undivided : Undivided chunks) : parse chunks = events := by
  have text : events.flatMap encodeText = fed (events.flatMap parts) := by
    rw [fed,List.flatMap_assoc]
    exact List.flatMap_congr (fun event _ => encodeText_fed event)
  have unbroken : ∀ line ∈ events.flatMap parts, Unbroken line := by
    intro line listed
    obtain ⟨event,here,part⟩ := List.mem_flatMap.mp listed
    exact parts_unbroken (written event here) line part
  have whole : (chunks.map decodeReplace).flatten = fed (events.flatMap parts) := by
    rw [← List.flatMap_def,decode_undivided chunks undivided,cut,Utf8.decode_encode characters
      (encode_events encoded),text]
  have lines : linesOf chunks = events.flatMap parts := by
    have plain := fed_plain unbroken
    rw [← whole] at plain
    rw [linesOf,(linesRead_iff _).mpr (settles_plain [] _ plain),whole,read_fed unbroken]
  rw [parse_lines,lines,SSEParser.yields,handle_events written]
  exact List.append_nil events

/-- A named event of three lines of data and an event without data, cut within a line and behind a
character of two octets. -/
theorem lines_parsed :
    parse [lit "event: ping\nda",lit "ta:  " ++ [0xC3,0xA9],lit "\ndata: \ndata: : x\n\n" ++
      lit "data: \n",lit "\n"] =
      [⟨some (lit "ping"),[32,0xE9] ++ lit "\n\n: x"⟩,⟨none,[]⟩] := by
  apply parse_encoded [⟨some (lit "ping"),[32,0xE9] ++ lit "\n\n: x"⟩,⟨none,[]⟩]
    [lit "event: ping\ndata:  " ++ [0xC3,0xA9] ++ lit "\ndata: \ndata: : x\n\n",lit "data: \n\n"]
  · intro event listed
    rcases List.mem_cons.mp listed with rfl | later
    · refine ⟨?_,?_,by decide⟩ <;> rintro name ⟨⟩
      · decide
      · exact ⟨by decide,by decide⟩
    · obtain rfl := List.mem_singleton.mp later
      exact ⟨fun _ none => absurd none (by simp),fun _ none => absurd none (by simp),
        List.not_mem_nil⟩
  · decide
  · decide
  · decide
  · refine ⟨?_,?_,?_,?_,trivial⟩ <;> rintro byte ⟨⟩ <;> rfl

end QuilrMcp.Guardrail.SseEncoding
