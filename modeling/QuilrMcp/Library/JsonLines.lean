import QuilrMcp.Library.JsonReading
import QuilrMcp.Library.Rendering
import QuilrMcp.Library.Dict
import QuilrMcp.Library.Unicode

/-! One document a line. A written document has no control character, so a line feed after each of
several documents is where the next one begins, however the documents were written. -/
namespace QuilrMcp.Library.Json
open Text

def InNumeral (code : Nat) : Prop := isDigit code = true ∨ code ∈ lit "+-.eE"

private theorem fraction_inNumeral {text fraction rest : Str}
    (scanned : scanFraction text = some (fraction,rest)) :
    ∀ code ∈ fraction, InNumeral code := by
  obtain ⟨-,digits,rfl,-,run⟩ := scanFraction_iff.mp scanned
  exact List.forall_mem_cons.mpr ⟨Or.inr (by decide),fun code member =>
    Or.inl (run.all code member)⟩

private theorem exponent_inNumeral {text exponent rest : Str}
    (scanned : scanExponent text = some (exponent,rest)) :
    ∀ code ∈ exponent, InNumeral code := by
  obtain ⟨-,letter,sign,digits,rfl,known,signed,-,run⟩ := scanExponent_iff.mp scanned
  refine List.forall_mem_cons.mpr ⟨Or.inr (by rcases known with rfl | rfl <;> decide),?_⟩
  refine List.forall_mem_append.mpr ⟨fun code member => Or.inr ?_,fun code member =>
    Or.inl (run.all code member)⟩
  rcases signed with rfl | rfl | rfl
  · contradiction
  · rw [List.mem_singleton.mp member]; decide
  · rw [List.mem_singleton.mp member]; decide

private theorem integer_inNumeral {text digits rest : Str}
    (scanned : scanInteger text = some (digits,rest)) :
    ∀ code ∈ digits, InNumeral code := by
  rcases (scanInteger_iff.mp scanned).2 with rfl | ⟨-,-,run⟩
  · exact List.forall_mem_singleton.mpr (Or.inl rfl)
  · exact fun code member => Or.inl (run.all code member)

private theorem optional_inNumeral {scan : Str → Option (Str × Str)} (text : Str)
    (scans : ∀ taken rest, scan text = some (taken,rest) → ∀ code ∈ taken, InNumeral code) :
    ∀ code ∈ ((scan text).getD ([],text)).1, InNumeral code := by
  cases scanned : scan text with
  | none => intro code member; cases member
  | some pair => exact scans pair.1 pair.2 scanned

theorem scanNumber_inNumeral {text rest : Str} {numeral : Numeral}
    (scanned : scanNumber text = some (numeral,rest)) :
    ∀ code ∈ numeral.text, InNumeral code := by
  simp only [scanNumber] at scanned
  split at scanned
  · contradiction
  · rename_i digits left integer
    simp only [Option.some.injEq,Prod.mk.injEq] at scanned
    obtain ⟨rfl,-⟩ := scanned
    have sign : ∀ code ∈ (if text.head? == some 45 then [45] else []), InNumeral code := by
      split_ifs
      · exact List.forall_mem_singleton.mpr (Or.inr (by decide))
      · intro code member; cases member
    simp only [Numeral.text,List.forall_mem_append]
    exact ⟨⟨⟨sign,integer_inNumeral integer⟩,optional_inNumeral _ (fun _ _ => fraction_inNumeral)⟩,
      optional_inNumeral _ (fun _ _ => exponent_inNumeral)⟩

theorem intText_inNumeral (value : Int) : ∀ code ∈ intText value, InNumeral code := by
  have scanned := scanNumber_intText value [] (by intro code member; cases member)
  have whole := scanNumber_text _ _ _ scanned
  have numeral := scanNumber_inNumeral scanned
  rw [List.append_nil,List.append_nil] at whole
  rwa [whole] at numeral

theorem floatText_inNumeral {text : Str} (known : IsFloatText text) :
    ∀ code ∈ text, InNumeral code := by
  obtain ⟨numeral,scanned,-⟩ := known
  have whole := scanNumber_text text [] numeral scanned
  have inside := scanNumber_inNumeral scanned
  rw [List.append_nil] at whole
  rwa [whole] at inside

/-- Code points, none of them a control character of ASCII below the space. -/
def Visible (text : Str) : Prop := ∀ code ∈ text, 32 ≤ code ∧ code < 0x110000

theorem InNumeral.visible {code : Nat} (inside : InNumeral code) : 32 ≤ code ∧ code < 0x110000 := by
  rcases inside with digit | listed
  · simp only [isDigit,Bool.and_eq_true,decide_eq_true_eq] at digit
    omega
  · exact (by decide : ∀ code ∈ lit "+-.eE", 32 ≤ code ∧ code < 0x110000) code listed

theorem unicodeEscape_visible (code : Nat) : Visible (unicodeEscape code) := by
  have digit (value : Nat) : 32 ≤ hexCode (value % 16) ∧ hexCode (value % 16) < 0x110000 := by
    rw [hexCode]
    split_ifs <;> omega
  rw [Visible,unicodeEscape]
  exact List.forall_mem_cons.mpr
    ⟨by decide,List.forall_mem_cons.mpr ⟨by decide,List.forall_mem_cons.mpr ⟨digit _,
    List.forall_mem_cons.mpr ⟨digit _,List.forall_mem_cons.mpr ⟨digit _,
      List.forall_mem_singleton.mpr (digit _)⟩⟩⟩⟩⟩

theorem escapeCode_visible (ensureAscii : Bool) {code : Nat} (small : code < 0x110000) :
    Visible (escapeCode ensureAscii code) := by
  by_cases named : Named code
  · obtain ⟨letter,known,-,written⟩ := escapeCode_named ensureAscii named
    have visible : 32 ≤ letter ∧ letter < 0x110000 :=
      (by decide : ∀ letter ∈ lit "\"\\bfnrt", 32 ≤ letter ∧ letter < 0x110000) letter known
    rw [written]
    exact List.forall_mem_cons.mpr ⟨by decide,List.forall_mem_singleton.mpr visible⟩
  · rw [escapeCode_unnamed ensureAscii named]
    split_ifs with control ascii astral
    · exact unicodeEscape_visible code
    · exact List.forall_mem_append.mpr ⟨unicodeEscape_visible _,unicodeEscape_visible _⟩
    · exact unicodeEscape_visible code
    · exact List.forall_mem_singleton.mpr ⟨by omega,small⟩

theorem writeString_visible (style : Style) {text : Str} (small : ∀ code ∈ text, code < 0x110000) :
    Visible (writeString style text) := by
  rw [writeString,Visible,List.forall_mem_append,List.forall_mem_cons,List.forall_mem_flatMap]
  exact ⟨⟨by decide,fun code member => escapeCode_visible _ (small code member)⟩,by decide⟩

private theorem separators_visible (style : Style) :
    Visible style.itemSeparator ∧ Visible style.keySeparator := by
  rw [Style.itemSeparator,Style.keySeparator,Visible,Visible]
  split_ifs <;> decide

private theorem enclosed_visible {opening closing : Nat} {text : Str}
    (opened : 32 ≤ opening ∧ opening < 0x110000) (closed : 32 ≤ closing ∧ closing < 0x110000)
    (inside : Visible text) : Visible (opening::text ++ [closing]) :=
  List.forall_mem_append.mpr ⟨List.forall_mem_cons.mpr ⟨opened,inside⟩,
    List.forall_mem_singleton.mpr closed⟩

mutual
theorem dumps_visible (format : FloatFormat) (style : Style) :
    (value : Value) → Sound format value → Visible (dumps style value)
  | .null, _ => by rw [dumps,Visible]; decide
  | .bool true, _ => by rw [dumps,Visible]; decide
  | .bool false, _ => by rw [dumps,Visible]; decide
  | .int value, _ => by
    rw [dumps]
    exact fun code member => (intText_inNumeral value code member).visible
  | .float text, sound => by
    rw [dumps]
    rcases sound with rfl | rfl | rfl | ⟨known,-⟩
    · rw [Visible]; decide
    · rw [Visible]; decide
    · rw [Visible]; decide
    · exact fun code member => (floatText_inNumeral known code member).visible
  | .str value, sound => by
    rw [dumps]
    exact writeString_visible style sound
  | .list items, sound => by
    rw [dumps]
    exact enclosed_visible (by decide) (by decide)
      ((dumpItems_all style items _ (separators_visible style).1).mpr
        (dumpItems_visible format style items sound))
  | .dict fields, sound => by
    rw [dumps]
    exact enclosed_visible (by decide) (by decide)
      ((dumpFields_all style fields _ (separators_visible style)).mpr
        (dumpFields_visible format style fields sound))
theorem dumpItems_visible (format : FloatFormat) (style : Style) :
    (items : List Value) → SoundItems format items →
    ∀ item ∈ items, Visible (dumps style item)
  | [], _ => List.forall_mem_nil _
  | item::items, sound =>
    List.forall_mem_cons.mpr ⟨dumps_visible format style item sound.1,
      dumpItems_visible format style items sound.2⟩
theorem dumpFields_visible (format : FloatFormat) (style : Style) :
    (fields : List (Str × Value)) → SoundFields format fields →
    ∀ field ∈ fields, Visible (writeString style field.1) ∧ Visible (dumps style field.2)
  | [], _ => List.forall_mem_nil _
  | (_,value)::fields, sound =>
    List.forall_mem_cons.mpr ⟨⟨writeString_visible style sound.1,
      dumps_visible format style value sound.2.1⟩,dumpFields_visible format style fields sound.2.2⟩
end

section Plain
variable {ε : Type} (hook : List (Str × Value) → Except ε (List (Str × Value)))

mutual
theorem rebuild_unpaired (ensureAscii : Bool) :
    (value : Value) → Settled hook value → Unpaired value →
    rebuild hook ensureAscii value = .ok value
  | .null, _, _ => rfl
  | .bool _, _, _ => rfl
  | .int _, _, _ => rfl
  | .float _, _, _ => rfl
  | .str value, _, unpaired => by
    have joined : joinSurrogates value = value := joinSurrogates_of_pairFree value unpaired
    cases ensureAscii <;> simp [rebuild,readBack,joined]
  | .list items, settled, unpaired => by
    rw [rebuild,rebuildItems_unpaired ensureAscii items settled unpaired]
    rfl
  | .dict fields, settled, unpaired => by
    rw [rebuild,rebuildFields_unpaired ensureAscii fields settled.2 unpaired]
    simp [settled.1]
theorem rebuildItems_unpaired (ensureAscii : Bool) :
    (items : List Value) → SettledItems hook items → UnpairedItems items →
    rebuildItems hook ensureAscii items = .ok items
  | [], _, _ => rfl
  | item::items, settled, unpaired => by
    rw [rebuildItems,rebuild_unpaired ensureAscii item settled.1 unpaired.1,
      rebuildItems_unpaired ensureAscii items settled.2 unpaired.2]
    rfl
theorem rebuildFields_unpaired (ensureAscii : Bool) :
    (fields : List (Str × Value)) → SettledFields hook fields →
    UnpairedFields fields → rebuildFields hook ensureAscii fields = .ok fields
  | [], _, _ => rfl
  | (key,value)::fields, settled, unpaired => by
    have joined : joinSurrogates key = key := joinSurrogates_of_pairFree key unpaired.1
    rw [rebuildFields,rebuild_unpaired ensureAscii value settled.1 unpaired.2.1,
      rebuildFields_unpaired ensureAscii fields settled.2 unpaired.2.2]
    cases ensureAscii <;> simp [readBack,joined,Except.map]
end

/-- A value that is read back as it was written. -/
structure Plain (format : FloatFormat) (value : Value) : Prop where
  sound : Sound format value
  settled : Settled hook value
  unpaired : Unpaired value

end Plain

/-- The hook of `json.loads` itself: the pairs become a dictionary. -/
abbrev lastWins (pairs : List (Str × Value)) : Except Empty (List (Str × Value)) :=
  .ok (Dict.ofPairs pairs)

abbrev lineFeed : Nat := 10
abbrev carriageReturn : Nat := 13

/-- Every line ending becomes a line feed. -/
def translateNewlines : Str → Str
  | [] => []
  | [code] => if code = carriageReturn then [lineFeed] else [code]
  | code::next::rest =>
    if code = carriageReturn then
      if next = lineFeed then translateNewlines (next::rest)
      else lineFeed::translateNewlines (next::rest)
    else code::translateNewlines (next::rest)

/-- The lines of a text, each with the line feed that ends it. -/
def cutLines : Str → List Str
  | [] => []
  | code::rest =>
    if code = lineFeed then [code]::cutLines rest
    else match cutLines rest with
      | [] => [[code]]
      | line::lines => (code::line)::lines

/-- What iterating over a text file gives. -/
def fileLines (text : Str) : List Str := cutLines (translateNewlines text)

def document (text : Str) : Str := text ++ [lineFeed]

theorem translateNewlines_plain {text : Str} (plain : carriageReturn ∉ text) :
    translateNewlines text = text := by
  induction text with
  | nil => rfl
  | cons code rest ih =>
    rw [List.mem_cons,not_or] at plain
    cases rest with
    | nil => rw [translateNewlines,if_neg (Ne.symm plain.1)]
    | cons next rest => rw [translateNewlines,if_neg (Ne.symm plain.1),ih plain.2]

theorem cutLines_document {line : Str} (unbroken : lineFeed ∉ line) (rest : Str) :
    cutLines (document line ++ rest) = document line::cutLines rest := by
  induction line with
  | nil => rfl
  | cons code line ih =>
    rw [List.mem_cons,not_or] at unbroken
    have later := ih unbroken.2
    simp only [document,List.cons_append] at later ⊢
    rw [cutLines,if_neg (Ne.symm unbroken.1),later]

theorem cutLines_documents {texts : List Str} (unbroken : ∀ text ∈ texts, lineFeed ∉ text) :
    cutLines (texts.flatMap document) = texts.map document := by
  induction texts with
  | nil => rfl
  | cons text texts ih =>
    obtain ⟨first,later⟩ := List.forall_mem_cons.mp unbroken
    rw [List.flatMap_cons,cutLines_document first,ih later,List.map_cons]

theorem Visible.unbroken {text : Str} (visible : Visible text) :
    lineFeed ∉ text ∧ carriageReturn ∉ text :=
  ⟨fun member => absurd (visible _ member).1 (by decide),fun member =>
    absurd (visible _ member).1 (by decide)⟩

/-- Texts without control characters, a line feed behind each, are the lines of the file. -/
theorem fileLines_documents {texts : List Str} (visible : ∀ text ∈ texts, Visible text) :
    fileLines (texts.flatMap document) = texts.map document := by
  have plain : carriageReturn ∉ texts.flatMap document := by
    intro member
    obtain ⟨text,listed,inside⟩ := List.mem_flatMap.mp member
    rcases List.mem_append.mp inside with here | ending
    · exact (visible text listed).unbroken.2 here
    · exact absurd (List.mem_singleton.mp ending) (by decide)
  rw [fileLines,translateNewlines_plain plain]
  exact cutLines_documents (fun text listed => (visible text listed).unbroken.1)

/-- The line feed behind a document is read over. -/
theorem loads_line {ε : Type} {format : FloatFormat}
    (hook : List (Str × Value) → Except ε (List (Str × Value))) (style : Style) {value : Value}
    (sound : Sound format value) :
    loads format hook (document (dumps style value)) = rebuild hook style.ensureAscii value := by
  obtain ⟨code,more,shape,solid,-,-,ascii⟩ := dumps_head format style value sound
  have delimited : Delimited [lineFeed] := by
    intro code member
    simp only [List.head?_cons,Option.mem_some_iff] at member
    subst member
    decide
  have long : (document (dumps style value)).length = (dumps style value).length + 1 := by
    simp [document]
  have read :=
    readValue_dumps format hook style value sound (2 * (document (dumps style value)).length + 2)
    (by omega) [lineFeed] delimited
  have start : skipSpace (document (dumps style value)) = document (dumps style value) := by
    rw [document,shape]
    exact List.dropWhile_cons_of_neg (by simp [solid])
  have unmarked : (document (dumps style value)).head? ≠ some 0xFEFF := by
    rw [document,shape,List.cons_append,List.head?_cons,ne_eq,Option.some.injEq]
    omega
  rw [loads,if_neg unmarked,decode,start,document]
  rw [document] at read
  rw [read]
  cases rebuild hook style.ensureAscii value <;> rfl

theorem loads_document {ε : Type} {format : FloatFormat}
    {hook : List (Str × Value) → Except ε (List (Str × Value))} (style : Style) {value : Value}
    (plain : Plain hook format value) :
    loads format hook (document (dumps style value)) = .ok value :=
  (loads_line hook style plain.sound).trans
    (rebuild_unpaired hook style.ensureAscii value plain.settled plain.unpaired)

end QuilrMcp.Library.Json
