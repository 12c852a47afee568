import QuilrMcp.Library.Division
import QuilrMcp.Router.Tokens

/-! A stream fed in chunks. The collector holds what the lines of the text so far report, and a cut
changes a line only by dividing its characters. -/
namespace QuilrMcp.Router.Chunking
open Library Library.Text
open Library.Json (Value lookup Alike)
open Tokens

section Collecting
variable (tables : Unicode.Tables) (format : Json.FloatFormat)

/-- The usage that a payload carries. -/
def usageIn (payload : Str) : Option (List (Str × Value)) :=
  if payload.isEmpty || payload = lit "[DONE]" then none
  else
    let loaded : Except (Json.Error Unit) Value :=
      Json.loads format (fun pairs => .ok (Dict.ofPairs pairs)) payload
    match loaded with
    | .error _ => none
    | .ok event => StreamUsageCollector.usageOf event

/-- The usage that a stripped line carries. -/
def usageAt (line : Str) : Option (List (Str × Value)) :=
  if (lit "data:").isPrefixOf line then usageIn format (tables.strip (line.drop 5)) else none

theorem consume_usageAt (self : StreamUsageCollector) (line : Str) :
    self.consume tables format line = (usageAt tables format line).elim self self.add := by
  simp only [StreamUsageCollector.consume,usageAt,usageIn]
  split_ifs
  · rfl
  · cases (Json.loads format (fun pairs => .ok (Dict.ofPairs pairs)) (tables.strip (line.drop 5)) :
      Except (Json.Error Unit) Value) with
    | error failed => rfl
    | ok event =>
      dsimp only
      cases StreamUsageCollector.usageOf event <;> rfl
  · rfl

def inputCounts (usage : List (Str × Value)) : List Int :=
  inputKeys.filterMap (fun key => (lookup key usage).bind strictCountOf)

def outputCount (usage : List (Str × Value)) : Option Int :=
  (lookup (lit "output_tokens") usage).bind strictCountOf

theorem add_counts (self : StreamUsageCollector) (usage : List (Str × Value)) :
    self.add usage = ⟨self.buffer,self.inputTokens + (inputCounts usage).sum,
      (outputCount usage).getD self.outputTokens,
      self.sawUsage || !(inputCounts usage).isEmpty || (outputCount usage).isSome⟩ := by
  rw [StreamUsageCollector.add,← inputCounts,← outputCount]
  cases outputCount usage with
  | none => simp
  | some output => simp

/-- The input counts that the lines report. -/
def inputsOf (lines : List Str) : List Int :=
  lines.flatMap (fun line => (usageAt tables format (tables.strip line)).elim [] inputCounts)

/-- The output counts that the lines report. -/
def outputsOf (lines : List Str) : List Int :=
  lines.filterMap (fun line => (usageAt tables format (tables.strip line)).bind outputCount)

/-- The lines that end in the text, and what follows them. -/
def linesOf (text : Str) : List Str := (Unicode.split 10 text).dropLast
def leftOf (text : Str) : Str := (Unicode.split 10 text).getLast?.getD []

/-- What the collector is after some lines. -/
def gathered (lines : List Str) (left : Str) : StreamUsageCollector :=
  ⟨left,(inputsOf tables format lines).sum,(outputsOf tables format lines).getLast?.getD 0,
    !(inputsOf tables format lines).isEmpty || !(outputsOf tables format lines).isEmpty⟩

theorem consume_gathered (lines : List Str) (left line : Str) :
    (gathered tables format lines left).consume tables format (tables.strip line) =
      gathered tables format (lines ++ [line]) left := by
  have inputs : inputsOf tables format (lines ++ [line]) = inputsOf tables format lines ++
      (usageAt tables format (tables.strip line)).elim [] inputCounts := by
    simp [inputsOf]
  have outputs : outputsOf tables format (lines ++ [line]) = outputsOf tables format lines ++
      ((usageAt tables format (tables.strip line)).bind outputCount).toList := by
    simp only [outputsOf,List.filterMap_append,List.filterMap_cons,List.filterMap_nil]
    cases (usageAt tables format (tables.strip line)).bind outputCount <;> rfl
  rw [consume_usageAt,gathered,gathered,inputs,outputs]
  cases usageAt tables format (tables.strip line) with
  | none => simp
  | some usage =>
    rw [Option.elim_some,Option.elim_some,Option.bind_some,add_counts]
    cases outputCount usage with
    | none => cases inputsOf tables format lines <;> simp [Bool.or_comm,Int.add_assoc]
    | some output => simp

theorem consume_lines (lines more : List Str) (left : Str) :
    more.foldl (fun self line => self.consume tables format (tables.strip line))
      (gathered tables format lines left) =
      gathered tables format (lines ++ more) left := by
  induction more generalizing lines with
  | nil => rw [List.foldl_nil,List.append_nil]
  | cons line more ih =>
    rw [List.foldl_cons,consume_gathered,ih,List.append_assoc,List.singleton_append]

/-- One chunk more takes what the text before it gives to what the text with it gives. -/
theorem feed_gathered (text : Str) (chunk : Bytes) :
    (gathered tables format (linesOf text) (leftOf text)).feed tables format chunk =
      gathered tables format (linesOf (text ++ Utf8.decodeReplace chunk))
        (leftOf (text ++ Utf8.decodeReplace chunk)) := by
  have filled := Unicode.split_ne_nil 10 (leftOf text ++ Utf8.decodeReplace chunk)
  have lines : linesOf (text ++ Utf8.decodeReplace chunk) =
      linesOf text ++ linesOf (leftOf text ++ Utf8.decodeReplace chunk) := by
    rw [linesOf,Unicode.split_onward,← leftOf,List.dropLast_append_of_ne_nil filled]
    rfl
  have left : leftOf (text ++ Utf8.decodeReplace chunk) =
    leftOf (leftOf text ++ Utf8.decodeReplace chunk) := by
    rw [leftOf,Unicode.split_onward,← leftOf,List.getLast?_append_of_ne_nil _ filled]
    rfl
  rw [lines,left,← consume_lines]
  rfl

/-- After all chunks the collector is what the text of the chunks gives. -/
theorem feed_chunks (chunks : List Bytes) :
    chunks.foldl (fun self chunk => self.feed tables format chunk) StreamUsageCollector.new =
      gathered tables format (linesOf (chunks.flatMap Utf8.decodeReplace))
        (leftOf (chunks.flatMap Utf8.decodeReplace)) := by
  have from_ (text : Str) :
      chunks.foldl (fun self chunk => self.feed tables format chunk)
        (gathered tables format (linesOf text) (leftOf text)) =
        gathered tables format (linesOf (text ++ chunks.flatMap Utf8.decodeReplace))
          (leftOf (text ++ chunks.flatMap Utf8.decodeReplace)) := by
    induction chunks generalizing text with
    | nil => rw [List.foldl_nil,List.flatMap_nil,List.append_nil]
    | cons chunk chunks ih =>
      rw [List.foldl_cons,feed_gathered,ih,List.flatMap_cons,List.append_assoc]
  exact from_ []

end Collecting

/-- Neither is there, or both are and they are alike. -/
private def BothAlike (usage usage' : Option (List (Str × Value))) : Prop :=
  (usage = none ∧ usage' = none) ∨
    ∃ fields fields', usage = some fields ∧ usage' = some fields' ∧
    Alike (.dict fields) (.dict fields')

private def fieldsAt (name : Str) (fields : List (Str × Value)) : Option (List (Str × Value)) :=
  match lookup name fields with
  | some (.dict inner) => some inner
  | _ => none

private theorem fieldsAt_dict {name : Str} {fields inner : List (Str × Value)}
    (found : lookup name fields = some (.dict inner)) :
    fieldsAt name fields = some inner := by
  rw [fieldsAt,found]

private theorem fieldsAt_other {name : Str} {fields : List (Str × Value)}
    (other : ∀ inner, lookup name fields = some (.dict inner) → False) :
    fieldsAt name fields = none := by
  rw [fieldsAt]
  split
  · rename_i inner found
    exact (other inner found).elim
  · rfl

private theorem usageOf_fields (event : List (Str × Value)) :
    StreamUsageCollector.usageOf (.dict event) =
      (fieldsAt (lit "usage") event).or ((fieldsAt (lit "message") event).bind
        (fieldsAt (lit "usage"))) := by
  rw [StreamUsageCollector.usageOf]
  split
  · rename_i usage found
    rw [fieldsAt_dict found,Option.some_or]
  · rename_i other
    rw [fieldsAt_other other,Option.none_or]
    split
    · rename_i message found
      rw [fieldsAt_dict found,Option.bind_some]
      rfl
    · rename_i other'
      rw [fieldsAt_other other',Option.bind_none]

private theorem fieldsAt_alike {name : Str} (ascii : ∀ code ∈ name, code < 128)
    {fields fields' : List (Str × Value)} (alike : Alike (.dict fields) (.dict fields')) :
    BothAlike (fieldsAt name fields) (fieldsAt name fields') := by
  rcases alike.field ascii with ⟨none,none'⟩ | ⟨value,value',some_,some',inner⟩
  · exact Or.inl ⟨by rw [fieldsAt,none],by rw [fieldsAt,none']⟩
  · simp only [fieldsAt,some_,some']
    cases inner with
    | same value =>
      cases value with
      | dict inner => exact Or.inr ⟨inner,inner,rfl,rfl,.same _⟩
      | _ => exact Or.inl ⟨rfl,rfl⟩
    | str _ _ => exact Or.inl ⟨rfl,rfl⟩
    | list _ _ => exact Or.inl ⟨rfl,rfl⟩
    | dict present values => exact Or.inr ⟨_,_,rfl,rfl,.dict present values⟩

private theorem data_ascii : ∀ code ∈ lit "data:", code < 128 := by decide

private theorem data_drop (rest : Str) : (lit "data:" ++ rest).drop 5 = rest := rfl

private theorem lit_ascii :
    (∀ code ∈ lit "usage", code < 128) ∧ (∀ code ∈ lit "message", code < 128) ∧
    ∀ key ∈ usageKeys, ∀ code ∈ key, code < 128 := by decide

private theorem usageOf_alike {event event' : Value} (alike : Alike event event') :
    BothAlike (StreamUsageCollector.usageOf event) (StreamUsageCollector.usageOf event') := by
  have dicts {fields fields' : List (Str × Value)} (alike : Alike (.dict fields) (.dict fields')) :
      BothAlike (StreamUsageCollector.usageOf (.dict fields)) (StreamUsageCollector.usageOf
        (.dict fields')) := by
    rw [usageOf_fields,usageOf_fields]
    rcases fieldsAt_alike lit_ascii.1 alike with ⟨none,none'⟩ | ⟨usage,usage',some_,some',inner⟩
    · rw [none,none',Option.none_or,Option.none_or]
      rcases fieldsAt_alike lit_ascii.2.1 alike with ⟨none,none'⟩ | ⟨message,message',
        some_,some',inner⟩
      · rw [none,none']
        exact Or.inl ⟨rfl,rfl⟩
      · rw [some_,some']
        exact fieldsAt_alike lit_ascii.1 inner
    · rw [some_,some']
      exact Or.inr ⟨usage,usage',rfl,rfl,inner⟩
  cases alike with
  | same =>
    cases event with
    | dict fields => exact dicts (.same _)
    | _ => exact Or.inl ⟨rfl,rfl⟩
  | str _ _ => exact Or.inl ⟨rfl,rfl⟩
  | list _ _ => exact Or.inl ⟨rfl,rfl⟩
  | dict present values => exact dicts (.dict present values)

private theorem count_alike {name : Str} (ascii : ∀ code ∈ name, code < 128)
    {usage usage' : List (Str × Value)} (alike : Alike (.dict usage) (.dict usage')) :
    (lookup name usage).bind strictCountOf = (lookup name usage').bind strictCountOf := by
  rcases alike.field ascii with ⟨none,none'⟩ | ⟨value,value',some_,some',inner⟩
  · rw [none,none']
  · rw [some_,some']
    cases inner <;> rfl

private theorem counts_alike {usage usage' : List (Str × Value)}
    (alike : Alike (.dict usage) (.dict usage')) :
    inputCounts usage = inputCounts usage' ∧ outputCount usage = outputCount usage' := by
  have known : ∀ key ∈ inputKeys, key ∈ usageKeys := by decide
  refine ⟨List.filterMap_congr (fun key member =>
    count_alike (lit_ascii.2.2 key (known key member)) alike),?_⟩
  exact count_alike (lit_ascii.2.2 _ (by decide)) alike

section Lines
variable (tables : Unicode.Tables) (format : Json.FloatFormat)

/-- No cut divides the white space that is stripped from a line, or from what follows its `data:`. -/
def Intact (line line' : Str) : Prop :=
  Utf8.margins tables line = Utf8.margins tables line' ∧
    Utf8.margins tables ((tables.strip line).drop 5) =
      Utf8.margins tables ((tables.strip line').drop 5)

instance (line line' : Str) : Decidable (Intact tables line line') :=
  inferInstanceAs (Decidable (_ ∧ _))

/-- The lines of the first list that are intact in the second. -/
def intactLines (lines lines' : List Str) : List Str :=
  ((lines.zip lines').filter (fun pair => Intact tables pair.1 pair.2)).map Prod.fst

/-- The tokens that the lines report together. -/
def spent (lines : List Str) : Int :=
  (inputsOf tables format lines).sum + (outputsOf tables format lines).getLast?.getD 0

/-- Some line reports a count. -/
def Reporting (lines : List Str) : Prop :=
  inputsOf tables format lines ≠ [] ∨ outputsOf tables format lines ≠ []

/-- Without the lines whose white space a cut divides, the stream still reports usage if it does with them,
and the same tokens, or at most the minimum charge both times. -/
def Harmless (chunks : List Bytes) : Prop :=
  let lines := linesOf (Utf8.decodeReplace chunks.flatten)
  let intact := intactLines tables lines (linesOf (chunks.flatMap Utf8.decodeReplace))
  (Reporting tables format lines → Reporting tables format intact) ∧
    (spent tables format intact = spent tables format lines ∨
      (spent tables format intact ≤ minimumCharge ∧ spent tables format lines ≤ minimumCharge))

private theorem usageIn_stopped {payload : Str}
    (stopped : payload.head? = some Utf8.replacement ∨ payload.getLast? = some Utf8.replacement) :
    usageIn format payload = none := by
  simp only [usageIn]
  split_ifs
  · rfl
  · split
    · rfl
    · rename_i event loaded
      obtain ⟨front,back⟩ := Json.loads_ends format loaded
      rcases stopped with head | last
      · exact absurd (front _ head) (by decide)
      · exact absurd (back _ last) (by decide)

private theorem usageIn_alike {payload payload' : Str} (blurred : Json.Blurred payload payload') :
    BothAlike (usageIn format payload) (usageIn format payload') := by
  have ascii : ∀ code ∈ lit "[DONE]", code < 128 := by decide
  have empty : payload.isEmpty = payload'.isEmpty := by
    rw [Bool.eq_iff_iff,List.isEmpty_iff,List.isEmpty_iff]
    exact blurred.empty
  have done : decide (payload = lit "[DONE]") = decide (payload' = lit "[DONE]") := by
    apply decide_eq_decide.mpr
    constructor
    · rintro rfl
      exact blurred.ascii ascii
    · rintro rfl
      exact blurred.symm.ascii ascii
  simp only [usageIn,empty,done]
  split_ifs
  · exact Or.inl ⟨rfl,rfl⟩
  · cases loaded : (Json.loads format (fun pairs => .ok (Dict.ofPairs pairs)) payload : Except
      (Json.Error Unit) Value) with
    | ok event =>
      obtain ⟨event',loaded',alike⟩ := Json.loads_blurred format blurred loaded
      rw [loaded']
      exact usageOf_alike alike
    | error failed =>
      cases loaded' : (Json.loads format (fun pairs => .ok (Dict.ofPairs pairs)) payload' : Except
        (Json.Error Unit) Value) with
      | error failed' => exact Or.inl ⟨rfl,rfl⟩
      | ok event' =>
        obtain ⟨event,loaded'',-⟩ := Json.loads_blurred format blurred.symm loaded'
        rw [loaded''] at loaded
        contradiction

private theorem lines_divided {text text' : Str} (divided : Utf8.Divided text text') :
    List.Forall₂ Utf8.Divided (linesOf text) (linesOf text') := by
  have parts := divided.split (show 10 < 128 by decide)
  rw [linesOf,linesOf,List.dropLast_eq_take,List.dropLast_eq_take,← parts.length_eq]
  exact List.forall₂_take _ parts

private theorem reporting_intact {lines lines' : List Str}
    (divided : List.Forall₂ Utf8.Divided lines lines')
    (reporting : Reporting tables format (intactLines tables lines lines')) :
    Reporting tables format lines := by
  have among : (intactLines tables lines lines').Sublist lines := by
    have some_ :=
      (@List.filter_sublist _ (fun pair => decide (Intact tables pair.1 pair.2))
        (lines.zip lines')).map Prod.fst
    rwa [List.map_fst_zip (Nat.le_of_eq divided.length_eq)] at some_
  refine reporting.imp (mt fun none => ?_) (mt fun none => ?_)
  · have fewer := among.flatMap (fun line => (usageAt tables format (tables.strip line)).elim
      [] inputCounts)
    rw [← inputsOf,← inputsOf,none] at fewer
    exact List.sublist_nil.mp fewer
  · have fewer :=
      among.filterMap (fun line => (usageAt tables format (tables.strip line)).bind outputCount)
    rw [← outputsOf,← outputsOf,none] at fewer
    exact List.sublist_nil.mp fewer

private theorem total_gathered (lines : List Str) (left : Str) : (Reporting tables format lines ∧
        (gathered tables format lines left).total =
          some (max minimumCharge (spent tables format lines))) ∨
      (¬ Reporting tables format lines ∧ (gathered tables format lines left).total = none ∧
        spent tables format lines = 0) := by
  by_cases reporting : Reporting tables format lines
  · refine Or.inl ⟨reporting,?_⟩
    rw [StreamUsageCollector.total,gathered,if_pos,spent]
    simpa [Reporting] using reporting
  · refine Or.inr ⟨reporting,?_⟩
    obtain ⟨inputs,outputs⟩ := not_or.mp reporting
    rw [StreamUsageCollector.total,gathered,spent,not_not.mp inputs,not_not.mp outputs]
    exact ⟨rfl,rfl⟩

variable (plain : tables.isSpace Utf8.replacement = false)
include plain

/-- A line whose white space is divided is not read. -/
theorem usageAt_broken {line line' : Str} (divided : Utf8.Divided line line')
    (broken : ¬ Intact tables line line') :
    usageAt tables format (tables.strip line') = none := by
  rcases divided.strip plain with ⟨margins,inner⟩ | ⟨-,head | last⟩
  · by_cases marked : (lit "data:").isPrefixOf (tables.strip line') = true
    · have start := List.isPrefixOf_iff_prefix.mp marked
      obtain ⟨rest,shape⟩ := (inner.blurred.symm.starts data_ascii start).1
      rw [← shape] at inner
      obtain ⟨rest',shape',payload⟩ := inner.behind data_ascii
      rcases payload.strip plain with ⟨same,-⟩ | ⟨-,stopped⟩
      · refine absurd ⟨margins,?_⟩ broken
        rw [← shape,shape',data_drop,data_drop]
        exact same
      · rw [usageAt,if_pos marked,shape',data_drop]
        exact usageIn_stopped format stopped
    · rw [usageAt,if_neg marked]
  · obtain ⟨rest,shape⟩ := List.head?_eq_some_iff.mp head
    rw [usageAt,shape,if_neg]
    exact Bool.false_ne_true
  · by_cases marked : (lit "data:").isPrefixOf (tables.strip line') = true
    · obtain ⟨rest,shape⟩ := List.isPrefixOf_iff_prefix.mp marked
      rw [← shape] at last
      rw [usageAt,if_pos marked,← shape,data_drop]
      apply usageIn_stopped format
      right
      apply Utf8.strip_last plain
      cases rest with
      | nil => exact absurd last (by decide)
      | cons code rest =>
        rw [List.getLast?_append_of_ne_nil _ (List.cons_ne_nil code rest)] at last
        exact last
    · rw [usageAt,if_neg marked]

/-- A line whose white space is whole is read as it is where nothing is divided. -/
theorem usageAt_intact {line line' : Str} (divided : Utf8.Divided line line')
    (intact : Intact tables line line') :
    BothAlike (usageAt tables format (tables.strip line))
      (usageAt tables format (tables.strip line')) := by
  rcases divided.strip plain with ⟨-,inner⟩ | ⟨margins,-⟩
  · by_cases marked : (lit "data:").isPrefixOf (tables.strip line) = true
    · have start := List.isPrefixOf_iff_prefix.mp marked
      have marked' := List.isPrefixOf_iff_prefix.mpr (inner.blurred.starts data_ascii start).1
      obtain ⟨rest,shape⟩ := start
      have payload := intact.2
      rw [← shape] at inner payload
      obtain ⟨rest',shape',later⟩ := inner.behind data_ascii
      rw [shape',data_drop,data_drop] at payload
      rcases later.strip plain with ⟨-,whole⟩ | ⟨apart,-⟩
      · rw [usageAt,usageAt,if_pos marked,if_pos marked',← shape,shape',data_drop,data_drop]
        exact usageIn_alike format whole.blurred
      · exact absurd payload apart
    · have unmarked : ¬ (lit "data:").isPrefixOf (tables.strip line') = true := by
        intro marked'
        exact marked (List.isPrefixOf_iff_prefix.mpr
          (inner.blurred.symm.starts data_ascii (List.isPrefixOf_iff_prefix.mp marked')).1)
      rw [usageAt,usageAt,if_neg marked,if_neg unmarked]
      exact Or.inl ⟨rfl,rfl⟩
  · exact absurd intact.1 margins

/-- The divided lines report what the intact ones of the whole report. -/
theorem reports_intact {lines lines' : List Str}
    (divided : List.Forall₂ Utf8.Divided lines lines') :
    inputsOf tables format lines' = inputsOf tables format (intactLines tables lines lines') ∧
      outputsOf tables format lines' =
        outputsOf tables format (intactLines tables lines lines') := by
  induction divided with
  | nil => exact ⟨rfl,rfl⟩
  | @cons line line' lines lines' first _ ih =>
    obtain ⟨inputs,outputs⟩ := ih
    simp only [inputsOf,outputsOf,intactLines] at inputs outputs ⊢
    rw [List.flatMap_cons,List.zip_cons_cons]
    by_cases intact : Intact tables line line'
    · rw [List.filter_cons_of_pos (by simpa using intact),List.map_cons,List.flatMap_cons,inputs,
        List.filterMap_cons,List.filterMap_cons,outputs]
      rcases usageAt_intact tables format plain first intact with ⟨none,none'⟩ | ⟨usage,usage',
        some_,some',alike⟩
      · rw [none,none']
        exact ⟨rfl,rfl⟩
      · obtain ⟨same,same'⟩ := counts_alike alike
        rw [some_,some']
        simp only [Option.elim_some,Option.bind_some,same,same']
        exact ⟨trivial,trivial⟩
    · rw [List.filter_cons_of_neg (by simpa using intact),List.filterMap_cons,
        usageAt_broken tables format plain first intact]
      exact ⟨inputs,outputs⟩

/-- A stream is charged the same in chunks as in one piece exactly when the lines whose white space a cut
divides are not needed for the charge. -/
theorem total_chunks_iff (chunks : List Bytes) :
    (chunks.foldl (fun self chunk => self.feed tables format chunk)
      StreamUsageCollector.new).total =
        (StreamUsageCollector.new.feed tables format chunks.flatten).total ↔
      Harmless tables format chunks := by
  have whole : StreamUsageCollector.new.feed tables format chunks.flatten =
      gathered tables format (linesOf (Utf8.decodeReplace chunks.flatten))
        (leftOf (Utf8.decodeReplace chunks.flatten)) := by
    have one := feed_chunks tables format [chunks.flatten]
    rwa [List.flatMap_singleton] at one
  rw [feed_chunks,whole,Harmless]
  have divided := lines_divided (Utf8.decode_divides chunks)
  generalize linesOf (Utf8.decodeReplace chunks.flatten) = lines at divided ⊢
  generalize linesOf (chunks.flatMap Utf8.decodeReplace) = lines' at divided ⊢
  -- The lines in chunks report what the intact ones of the whole do.
  obtain ⟨inputs,outputs⟩ := reports_intact tables format plain divided
  have same : gathered tables format lines' =
    gathered tables format (intactLines tables lines lines') := by
    funext left
    rw [gathered,gathered,inputs,outputs]
  have onward := reporting_intact tables format divided
  rw [same]
  generalize intactLines tables lines lines' = intact at onward ⊢
  rcases total_gathered tables format intact (leftOf (chunks.flatMap Utf8.decodeReplace)) with
      ⟨reporting,total⟩ | ⟨silent,total,zero⟩ <;>
    rcases total_gathered tables format lines (leftOf (Utf8.decodeReplace chunks.flatten)) with
      ⟨reporting',total'⟩ | ⟨silent',total',zero'⟩ <;>
    rw [total,total']
  · rw [Option.some_inj]
    simp only [reporting,reporting',imp_self,true_and,minimumCharge]
    omega
  · exact absurd (onward reporting) silent'
  · simp [silent,reporting']
  · simp [silent',zero,zero']

end Lines

/-- The white space of `str.strip` beyond ASCII. -/
def wideSpaces : List Nat :=
  [0x85,0xA0,0x1680,0x2000,0x2001,0x2002,0x2003,0x2004,0x2005,0x2006,0x2007,0x2008,0x2009,0x200A,
    0x2028,0x2029,0x202F,0x205F,0x3000]

def wide : Unicode.Tables where
  __ := Unicode.ascii
  isSpace code := Unicode.isAsciiSpace code || wideSpaces.contains code
  isSpace_ascii code small := by
    have narrow : wideSpaces.contains code = false := by
      simp only [wideSpaces,List.contains_eq_mem,List.mem_cons,List.not_mem_nil,or_false,
        decide_eq_false_iff_not]
      omega
    rw [narrow,Bool.or_false]

/-- An event with a no-break space behind it, which is cut in two. -/
def cutSpace : List Bytes :=
  [lit "data: \x7b\"usage\":\x7b\"output_tokens\":7\x7d\x7d" ++ [0xC2],[0xA0,10]]

theorem total_chunks_iff_cut : (cutSpace.foldl (fun self chunk => self.feed wide .verbatim chunk)
      StreamUsageCollector.new).total =
        (StreamUsageCollector.new.feed wide .verbatim cutSpace.flatten).total ↔
      Harmless wide .verbatim cutSpace :=
  total_chunks_iff wide .verbatim (by decide +kernel) cutSpace

/-- In one piece the stream is charged 7 tokens, and in its two chunks it reports nothing. -/
theorem cut_space_unbilled : ¬ ∀ chunks : List Bytes,
      (chunks.foldl (fun self chunk => self.feed wide .verbatim chunk)
        StreamUsageCollector.new).total =
        (StreamUsageCollector.new.feed wide .verbatim chunks.flatten).total := by
  intro same
  have whole : (StreamUsageCollector.new.feed wide .verbatim cutSpace.flatten).total = some 7 := by
    decide +kernel
  have parts : (cutSpace.foldl (fun self chunk => self.feed wide .verbatim chunk)
    StreamUsageCollector.new).total = none := by
    decide +kernel
  exact Option.some_ne_none 7 (whole.symm.trans ((same cutSpace).symm.trans parts))

end QuilrMcp.Router.Chunking
