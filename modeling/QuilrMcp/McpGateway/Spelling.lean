import QuilrMcp.McpGateway.Policy
import QuilrMcp.Library.Normalization

/-! The spelling of a tool name. Folding goes through composition, ordering and case, but whether the result
begins with the prefix is read off the letters of the name one by one. A letter whose diacritic has no
decomposition keeps it. -/
namespace QuilrMcp.McpGateway.Spelling
open Library Library.Text
open Library.Normalization

/-- The case mappings of single code points. -/
structure Cases where
  fold : Nat → Str
  upper : Nat → Str
  lower : Nat → Str
  /-- Whether a sigma between these two texts ends a word. -/
  finalSigma : Str → Str → Bool

/-- `str.upper()` -/
def Cases.upperText (cases : Cases) (text : Str) : Str := text.flatMap cases.upper

def Cases.lowerFrom (cases : Cases) (before : Str) : Str → Str
  | [] => []
  | code::rest =>
    (if code = 0x3A3 then [if cases.finalSigma before rest then 0x3C2 else 0x3C3]
      else cases.lower code) ++
      cases.lowerFrom (before ++ [code]) rest

/-- `str.lower()` -/
def Cases.lowerText (cases : Cases) (text : Str) : Str := cases.lowerFrom [] text

section Letters
variable (tables : Unicode.Tables) (codes : CodePoints) (cases : Cases) (plain : Nat → Nat)

def unmarked (text : Str) : Str := text.filter (fun code => tables.category code ≠ .mn)

/-- What the folding leaves of a code point of the NFKC form. -/
def remains (code : Nat) : Str :=
  if isInvisible tables code then []
  else unmarked tables ((cases.fold code).flatMap codes.canonical)

/-- The letters that a code point of a name is folded to. -/
def spelled (code : Nat) : Str := (codes.compatible code).flatMap (remains tables codes cases)

/-- The letters without the diacritics that they still have. -/
def plainly (code : Nat) : Str := (spelled tables codes cases code).map plain

/-- The letter beneath the diacritics of a code point. -/
def bare (code : Nat) : Str := (unmarked tables (codes.canonical code)).map plain

/-- A text of letters that are not ASCII. -/
def Foreign (text : Str) : Prop := text ≠ [] ∧ ∀ code ∈ text, 128 ≤ code

/-- What the Unicode tables say. -/
structure Follows : Prop where
  nfkc : ∀ text, tables.nfkc text = Normalization.nfkc codes text
  nfd : ∀ text, tables.nfd text = Normalization.nfd codes text
  nfc : ∀ text, tables.nfc text = Normalization.nfc codes text
  casefold : ∀ text, tables.casefold text = text.flatMap cases.fold
  canonical_whole : ∀ code, ∀ part ∈ codes.canonical code, codes.canonical part = [part]
  compatible_invisible : ∀ code, isInvisible tables code = true → ∀ part ∈ codes.compatible code,
    isInvisible tables part = true
  class_ascii : ∀ code, code < 128 → codes.combiningClass code = 0
  class_foreign : ∀ code, codes.combiningClass code ≠ 0 →
    ∀ part ∈ remains tables codes cases code, 128 ≤ part
  composite_remains : ∀ first next composite, codes.composite first next = some composite →
    remains tables codes cases composite = remains tables codes cases first ++
      remains tables codes cases next
  composite_unmarked : ∀ first next composite, codes.composite first next = some composite →
    tables.category first ≠ .mn → tables.category next ≠ .mn →
      tables.category composite ≠ .mn ∧ 128 ≤ first ∧ 128 ≤ next ∧ 128 ≤ composite
  plain_ascii : ∀ code, code < 128 → plain code = code
  upper_plainly : ∀ code, (cases.upper code).flatMap (plainly tables codes cases plain) =
    plainly tables codes cases plain code
  lower_spelled : ∀ code, (cases.lower code).flatMap (spelled tables codes cases) =
    spelled tables codes cases code
  sigma_spelled : ∀ code, code = 0x3C2 ∨ code = 0x3C3 →
    spelled tables codes cases code = spelled tables codes cases 0x3A3
  bare_plainly : ∀ code, tables.category code ≠ .mn →
    plainly tables codes cases plain code = (bare tables codes plain code).flatMap
      (plainly tables codes cases plain) ∨
      Foreign (plainly tables codes cases plain code) ∧
      Foreign ((bare tables codes plain code).flatMap (plainly tables codes cases plain))

variable {tables codes cases plain}

private theorem prefix_ascii {code : Nat} (foreign : 128 ≤ code) : code ∉ adminToolPrefix := by
  have ascii : ∀ letter ∈ adminToolPrefix, letter < 128 := by decide
  intro member
  have := ascii code member
  omega

private theorem foreign_stray {text : Str} (foreign : ∀ code ∈ text, 128 ≤ code)
    (state : Option Nat) :
    text.foldl (advance adminToolPrefix) state = if text = [] then state
      else stray adminToolPrefix state := by
  split_ifs with empty
  · rw [empty,List.foldl_nil]
  · exact foldl_stray empty (fun code member => prefix_ascii (foreign code member)) state

variable (follows : Follows tables codes cases plain)

section
include follows

private theorem mark_foreign {code : Nat} (mark : codes.combiningClass code ≠ 0) : 128 ≤ code := by
  by_contra ascii
  exact mark (follows.class_ascii code (by omega))

private theorem advance_unordered : Unordered codes (advance adminToolPrefix) := by
  intro state mark mark' here here'
  have outside := prefix_ascii (mark_foreign follows here)
  have outside' := prefix_ascii (mark_foreign follows here')
  rw [advance_stray outside,advance_stray outside',advance_stray outside,advance_stray outside']

private theorem advance_uncomposed :
    Uncomposed codes (fun code => tables.category code ≠ .mn) (advance adminToolPrefix) := by
  intro first next composite joined unmarked unmarked'
  obtain ⟨known,low,low',low''⟩ :=
    follows.composite_unmarked first next composite joined unmarked unmarked'
  refine ⟨known,fun state => ?_⟩
  rw [advance_stray (prefix_ascii low''),advance_stray (prefix_ascii low),
    advance_stray (prefix_ascii low'),stray_stray]

private theorem seen_unordered :
    Unordered codes (fun state code => if tables.category code ≠ .mn then advance adminToolPrefix
      state code else state) := by
  intro state mark mark' here here'
  have apart := advance_unordered follows state mark mark' here here'
  simp only
  split_ifs
  · exact apart
  · rfl
  · rfl
  · rfl

private theorem shown_unordered :
    Unordered codes (fun state code => (remains tables codes cases code).foldl
      (advance adminToolPrefix) state) := by
  intro state mark mark' here here'
  simp only [foreign_stray (follows.class_foreign mark here),
    foreign_stray (follows.class_foreign mark' here')]
  split_ifs <;> rfl

private theorem shown_uncomposed : Uncomposed codes (fun _ => True)
    (fun state code => (remains tables codes cases code).foldl
      (advance adminToolPrefix) state) := by
  intro first next composite joined _ _
  refine ⟨trivial,fun state => ?_⟩
  simp only
  rw [follows.composite_remains first next composite joined,List.foldl_append]

private theorem nfc_reads (text : Str) (state : Option Nat) :
    (tables.nfc (unmarked tables (tables.nfd text))).foldl (advance adminToolPrefix) state =
      (unmarked tables (text.flatMap codes.canonical)).foldl (advance adminToolPrefix) state := by
  have whole : (unmarked tables (tables.nfd text)).flatMap codes.canonical =
    unmarked tables (tables.nfd text) := by
    have each (part : Nat) (member : part ∈ unmarked tables (tables.nfd text)) : codes.canonical
      part = [part] := by
      have listed := (List.mem_filter.mp member).1
      rw [follows.nfd,Normalization.nfd,(order_perm _).mem_iff,List.mem_flatMap] at listed
      obtain ⟨code,_,inside⟩ := listed
      exact follows.canonical_whole code part inside
    rw [List.flatMap_congr each]
    exact List.flatMap_singleton' _
  have among (code : Nat) (member : code ∈ order codes (unmarked tables (tables.nfd text))) :
    tables.category code ≠ .mn :=
    of_decide_eq_true (List.mem_filter.mp ((order_perm _).mem_iff.mp member)).2
  rw [follows.nfc,Normalization.nfc,Normalization.nfd,whole,
    compose_reads (advance_unordered follows) (advance_uncomposed follows) _ among,
    order_reads (advance_unordered follows),
    unmarked,unmarked,List.foldl_filter,List.foldl_filter,follows.nfd,Normalization.nfd]
  simp only [decide_eq_true_eq]
  exact order_reads (seen_unordered follows) _ state

end

private theorem visible_remains (text : Str) : unmarked tables
      (((text.filter (fun code => !isInvisible tables code)).flatMap cases.fold).flatMap
        codes.canonical) =
      text.flatMap (remains tables codes cases) := by
  induction text with
  | nil => rfl
  | cons code text ih =>
    rw [List.filter_cons,List.flatMap_cons,remains]
    cases isInvisible tables code with
    | true => exact ih
    | false =>
      simp only [Bool.not_false,if_true,Bool.false_eq_true,if_false]
      rw [List.flatMap_cons,List.flatMap_append,unmarked,List.filter_append,← unmarked,
        ← unmarked,ih]

include follows in
/-- A tool is privileged exactly where the letters of its name begin with the prefix. -/
theorem privileged_iff (name : Str) : isPrivilegedTool tables name = true ↔
    adminToolPrefix <+: name.flatMap (spelled tables codes cases) := by
  have folded : name.flatMap (spelled tables codes cases) = (name.flatMap codes.compatible).flatMap
    (remains tables codes cases) := by
    rw [List.flatMap_assoc]
    rfl
  rw [isPrivilegedTool,List.isPrefixOf_iff_prefix,prefix_iff,prefix_iff,normalizeToolName,folded]
  rw [← unmarked,nfc_reads follows,follows.casefold,visible_remains,List.foldl_flatMap,
    List.foldl_flatMap,follows.nfkc,Normalization.nfkc,
    compose_reads (shown_unordered follows) (shown_uncomposed follows) _ (fun _ _ => trivial),
    order_reads (shown_unordered follows)]

end Letters

section Spellings
variable (tables : Unicode.Tables) (codes : CodePoints) (cases : Cases) (plain : Nat → Nat)

/-- The second name is the first with invisible characters inserted anywhere. -/
inductive Inserted : Str → Str → Prop
  | nil : Inserted [] []
  | keep {name name' : Str} (code : Nat) : Inserted name name' → Inserted (code::name) (code::name')
  | insert {name name' : Str} (code : Nat) : isInvisible tables code = true → Inserted name name' →
      Inserted name (code::name')

/-- Two letters that differ by diacritics only. -/
def Variant (code other : Nat) : Prop :=
  tables.category code ≠ .mn ∧ tables.category other ≠ .mn ∧
  bare tables codes plain code = bare tables codes plain other

inductive Respelled (name : Str) : Str → Prop
  | upper : Respelled name (cases.upperText name)
  | lower : Respelled name (cases.lowerText name)
  | inserted {name' : Str} : Inserted tables name name' → Respelled name name'
  | varied {name' : Str} :
      List.Forall₂ (fun code other => other = code ∨
        Variant tables codes plain code other) name name' →
      Respelled name name'

/-- Without any diacritics the letters of the name begin with the prefix. -/
def Reads (name : Str) : Prop := adminToolPrefix <+: name.flatMap (plainly tables codes cases plain)

/-- One of the first letters, as many as the prefix has, keeps its diacritic. -/
def Keeps (name : Str) : Prop :=
  ∃ code ∈ (name.flatMap (spelled tables codes cases)).take adminToolPrefix.length,
    plain code ≠ code

variable {tables codes cases plain}

private theorem plainly_flatMap (name : Str) : name.flatMap (plainly tables codes cases plain) =
      (name.flatMap (spelled tables codes cases)).map plain := by
  rw [List.map_flatMap]
  rfl

variable (follows : Follows tables codes cases plain)
include follows

/-- A privileged name reads as one, and its prefix has no diacritic. -/
private theorem privileged_reads (name : Str) :
    isPrivilegedTool tables name = true ↔ Reads tables codes cases plain name ∧
    ¬ Keeps tables codes cases plain name := by
  have ascii : ∀ letter ∈ adminToolPrefix, letter < 128 := by decide
  have fixed (letter : Nat) (member : letter ∈ adminToolPrefix) : plain letter = id letter :=
    follows.plain_ascii letter (ascii letter member)
  rw [privileged_iff follows,Reads,plainly_flatMap,Keeps]
  generalize name.flatMap (spelled tables codes cases) = letters
  constructor
  · rintro ⟨rest,rfl⟩
    rw [List.map_append,List.map_congr_left fixed,List.map_id,List.take_left]
    refine ⟨List.prefix_append _ _,?_⟩
    rintro ⟨code,member,changed⟩
    exact changed (fixed code member)
  · rintro ⟨reads,bare⟩
    have front := List.prefix_iff_eq_take.mp reads
    rw [← List.map_take] at front
    have each (code : Nat) (member : code ∈ letters.take adminToolPrefix.length) : plain code =
      id code := by
      by_contra changed
      exact bare ⟨code,member,changed⟩
    rw [List.map_congr_left each,List.map_id] at front
    exact List.prefix_iff_eq_take.mpr front

private theorem lowerFrom_spelled (before name : Str) :
    (cases.lowerFrom before name).flatMap (spelled tables codes cases) =
      name.flatMap (spelled tables codes cases) := by
  induction name generalizing before with
  | nil => rfl
  | cons code name ih =>
    rw [Cases.lowerFrom,List.flatMap_append,List.flatMap_cons,ih]
    congr 1
    split_ifs with sigma final
    · rw [sigma,List.flatMap_singleton,follows.sigma_spelled _ (Or.inl rfl)]
    · rw [sigma,List.flatMap_singleton,follows.sigma_spelled _ (Or.inr rfl)]
    · exact follows.lower_spelled code

private theorem inserted_spelled {name name' : Str} (inserted : Inserted tables name name') :
    name'.flatMap (spelled tables codes cases) = name.flatMap (spelled tables codes cases) := by
  induction inserted with
  | nil => rfl
  | keep code _ ih => rw [List.flatMap_cons,List.flatMap_cons,ih]
  | insert code invisible _ ih =>
    have nothing : spelled tables codes cases code = [] := by
      rw [spelled,List.flatMap_eq_nil_iff]
      intro part member
      rw [remains,if_pos (follows.compatible_invisible code invisible part member)]
    rw [List.flatMap_cons,nothing,ih,List.nil_append]

private theorem variant_reads {code other : Nat} (variant : Variant tables codes plain code other)
    (state : Option Nat) :
    (plainly tables codes cases plain other).foldl (advance adminToolPrefix) state =
      (plainly tables codes cases plain code).foldl (advance adminToolPrefix) state := by
  obtain ⟨unmarked,unmarked',same⟩ := variant
  have reads (code : Nat) (unmarked : tables.category code ≠ .mn) :
      (plainly tables codes cases plain code).foldl (advance adminToolPrefix) state =
        ((bare tables codes plain code).flatMap (plainly tables codes cases plain)).foldl
        (advance adminToolPrefix) state := by
    rcases follows.bare_plainly code unmarked with equal | ⟨foreign,foreign'⟩
    · rw [equal]
    · rw [foreign_stray foreign.2,foreign_stray foreign'.2,if_neg foreign.1,if_neg foreign'.1]
  rw [reads other unmarked',reads code unmarked,same]

private theorem respelled_reads {name name' : Str}
    (respelled : Respelled tables codes cases plain name name') :
    Reads tables codes cases plain name' ↔ Reads tables codes cases plain name := by
  cases respelled with
  | upper =>
    rw [Reads,Reads,Cases.upperText,List.flatMap_assoc,List.flatMap_congr (fun code _ =>
      follows.upper_plainly code)]
  | lower => rw [Reads,Reads,plainly_flatMap,plainly_flatMap,Cases.lowerText,
      lowerFrom_spelled follows]
  | inserted inserted =>
    rw [Reads,Reads,plainly_flatMap,plainly_flatMap,inserted_spelled follows inserted]
  | varied varied =>
    rw [Reads,Reads,prefix_iff,prefix_iff,List.foldl_flatMap,List.foldl_flatMap]
    have same (state : Option Nat) :
        name'.foldl (fun state code => (plainly tables codes cases plain code).foldl
          (advance adminToolPrefix) state) state =
          name.foldl (fun state code => (plainly tables codes cases plain code).foldl
            (advance adminToolPrefix) state) state := by
      induction varied generalizing state with
      | nil => rfl
      | cons here _ ih =>
        rw [List.foldl_cons,List.foldl_cons,ih]
        rcases here with rfl | variant
        · rfl
        · rw [variant_reads follows variant]
    rw [same]

/-- Two spellings of a name are judged alike, unless it reads as privileged without diacritics and one
of the spellings keeps a diacritic in the prefix and the other none. -/
theorem spelling_immaterial_iff {name name' : Str}
    (respelled : Respelled tables codes cases plain name name') :
    isPrivilegedTool tables name' = isPrivilegedTool tables name ↔
      (Reads tables codes cases plain name → (Keeps tables codes cases plain name' ↔
        Keeps tables codes cases plain name)) := by
  have reads := respelled_reads follows respelled
  rw [Bool.eq_iff_iff,privileged_reads follows,privileged_reads follows,reads]
  tauto

end Spellings

def turkishPoints : CodePoints where
  canonical code := if code = 0x130 then [0x49,0x307] else [code]
  compatible code := if code = 0x130 then [0x49,0x307] else [code]
  combiningClass code := if code = 0x307 then 230 else 0
  composite first next := if first = 0x49 ∧ next = 0x307 then some 0x130 else none

def turkishFold (code : Nat) : Str :=
  if code = 0x130 then [0x69,0x307] else if code = 0x3A3 ∨ code = 0x3C2 then [0x3C3]
  else [Unicode.asciiLower code]

def turkishUpper (code : Nat) : Str :=
  if code = 0x131 then [0x49] else if code = 0x3C2 ∨ code = 0x3C3 then [0x3A3]
  else if 97 ≤ code ∧ code ≤ 122 then [code - 32] else [code]

def turkishLower (code : Nat) : Str :=
  if code = 0x130 then [0x69,0x307] else if code = 0x3A3 then [0x3C3] else [Unicode.asciiLower code]

def turkishCases : Cases := ⟨turkishFold,turkishUpper,turkishLower,fun _ _ => false⟩

def turkish : Unicode.Tables :=
  {Unicode.ascii with
    nfkc := Normalization.nfkc turkishPoints
    nfd := Normalization.nfd turkishPoints
    nfc := Normalization.nfc turkishPoints
    casefold := fun text => text.flatMap turkishFold
    category := fun code => if code = 0x307 then .mn else Unicode.ascii.category code
    nfkc_ascii := by
      intro text ascii
      apply nfkc_starters
      · intro code member
        exact if_neg (by have := ascii code member; omega)
      · intro code member
        exact if_neg (by have := ascii code member; omega)
      · intro first next member
        exact if_neg (by have := ascii next member; omega)
    casefold_ascii := by
      intro text ascii
      have each (code : Nat) (member : code ∈ text) : turkishFold code =
        [Unicode.asciiLower code] := by
        have small := ascii code member
        rw [turkishFold,if_neg (by omega),if_neg (by omega)]
      rw [List.flatMap_congr each,List.map_eq_flatMap]}

/-- The letter I without a dot has no decomposition. -/
def turkishPlain (code : Nat) : Nat := if code = 0x131 then 0x69 else code

private theorem turkish_fold (code : Nat) (apart : code ≠ 0x130)
    (apart' : code ≠ 0x307) (part : Nat) (member : part ∈ turkishFold code) :
    part ≠ 0x130 ∧ part ≠ 0x307 := by
  simp only [turkishFold,Unicode.asciiLower,if_neg apart] at member
  split_ifs at member with sigma upper
  · obtain rfl := List.mem_singleton.mp member
    decide
  · obtain rfl := List.mem_singleton.mp member
    constructor
    · omega
    · omega
  · obtain rfl := List.mem_singleton.mp member
    exact ⟨apart,apart'⟩

private theorem ascii_unmarked (code : Nat) : Unicode.ascii.category code ≠ .mn := by
  simp only [Unicode.ascii]
  split_ifs <;> decide

private theorem turkish_remains (code : Nat) (apart : code ≠ 0x130) (apart' : code ≠ 0x307) :
    remains turkish turkishPoints turkishCases code = if isInvisible turkish code then []
      else turkishFold code := by
  have folded := turkish_fold code apart apart'
  have whole : (turkishFold code).flatMap turkishPoints.canonical = turkishFold code := by
    have each (part : Nat) (member : part ∈ turkishFold code) : turkishPoints.canonical part =
      [part] :=
      if_neg (folded part member).1
    rw [List.flatMap_congr each,List.flatMap_singleton']
  have unmarked_ : unmarked turkish (turkishFold code) = turkishFold code := by
    apply List.filter_eq_self.mpr
    intro part member
    have category : turkish.category part = Unicode.ascii.category part :=
      if_neg (folded part member).2
    rw [category]
    exact decide_eq_true (ascii_unmarked part)
  have fold : turkishCases.fold code = turkishFold code := rfl
  rw [remains,fold,whole,unmarked_]

private theorem turkish_spelled (code : Nat) (apart : code ≠ 0x130) :
    spelled turkish turkishPoints turkishCases code =
      remains turkish turkishPoints turkishCases code := by
  have whole : turkishPoints.compatible code = [code] := if_neg apart
  rw [spelled,whole,List.flatMap_singleton]

private theorem turkish_category (code : Nat) : turkish.category code = .mn ↔ code = 0x307 := by
  constructor
  · intro mark
    by_contra other
    have same : turkish.category code = Unicode.ascii.category code := if_neg other
    exact ascii_unmarked code (same ▸ mark)
  · rintro rfl
    rfl

private theorem turkish_letter (code : Nat) (printed : 32 < code ∧ code < 127) :
    spelled turkish turkishPoints turkishCases code = [Unicode.asciiLower code] := by
  have category : turkish.category code = .other := by
    simp only [turkish,Unicode.ascii]
    rw [if_neg (by omega),if_neg (by omega),if_neg (by omega)]
  have visible : isInvisible turkish code = false := by rw [isInvisible,category]
  rw [turkish_spelled code (by omega),turkish_remains code (by omega) (by omega),visible,
    if_neg Bool.false_ne_true,turkishFold,if_neg (by omega),if_neg (by omega)]

theorem turkish_follows : Follows turkish turkishPoints turkishCases turkishPlain where
  nfkc _ := rfl
  nfd _ := rfl
  nfc _ := rfl
  casefold _ := rfl
  canonical_whole code part member := by
    by_cases dotted : code = 0x130
    · subst dotted
      have parts : part = 0x49 ∨ part = 0x307 := by simpa [turkishPoints] using member
      rcases parts with rfl | rfl <;> rfl
    · have same : turkishPoints.canonical code = [code] := if_neg dotted
      rw [same] at member
      rwa [List.mem_singleton.mp member]
  compatible_invisible code invisible part member := by
    have apart : code ≠ 0x130 := by
      rintro rfl
      contradiction
    have same : turkishPoints.compatible code = [code] := if_neg apart
    rw [same] at member
    rwa [List.mem_singleton.mp member]
  class_ascii code small := if_neg (by omega)
  class_foreign code mark := by
    have dot : code = 0x307 := by
      by_contra other
      exact mark (if_neg other)
    subst dot
    decide
  composite_remains first next composite joined := by
    simp only [turkishPoints] at joined
    split_ifs at joined with dotted
    obtain ⟨rfl,rfl⟩ := dotted
    cases joined
    decide
  composite_unmarked first next composite joined _ unmarked := by
    simp only [turkishPoints] at joined
    split_ifs at joined with dotted
    exact absurd ((turkish_category next).mpr dotted.2) unmarked
  plain_ascii code small := if_neg (by omega)
  upper_plainly code := by
    have upper : turkishCases.upper code = turkishUpper code := rfl
    rw [upper,turkishUpper]
    split_ifs with dotless sigma letter
    · subst dotless
      decide
    · rcases sigma with rfl | rfl <;> decide
    · rw [List.flatMap_singleton,plainly,plainly,turkish_letter (code - 32) (by omega),
        turkish_letter code (by omega)]
      rw [Unicode.asciiLower,Unicode.asciiLower,if_pos (by omega),if_neg (by omega),
        Nat.sub_add_cancel (by omega)]
    · exact List.flatMap_singleton _ _
  lower_spelled code := by
    have lower : turkishCases.lower code = turkishLower code := rfl
    rw [lower,turkishLower]
    split_ifs with dotted sigma
    · subst dotted
      decide
    · subst sigma
      decide
    · rw [List.flatMap_singleton,Unicode.asciiLower]
      split_ifs with letter
      · rw [turkish_letter code (by omega),turkish_letter (code + 32) (by omega),Unicode.asciiLower,
          Unicode.asciiLower,if_pos letter,if_neg (by omega)]
      · rfl
  sigma_spelled code small := by
    rcases small with rfl | rfl <;> decide
  bare_plainly code letter := by
    left
    by_cases dotted : code = 0x130
    · subst dotted
      decide
    · have same : turkishPoints.canonical code = [code] := if_neg dotted
      have whole : unmarked turkish [code] = [code] := by
        rw [unmarked,List.filter_cons,if_pos (decide_eq_true letter),List.filter_nil]
      rw [bare,same,whole,List.map_singleton,List.flatMap_singleton]
      by_cases dotless : code = 0x131
      · subst dotless
        decide
      · rw [turkishPlain,if_neg dotless]

/-- The lower case of a name with the dotted letter of Turkish is judged as the name is. -/
theorem dotted_name_judged :
    isPrivilegedTool turkish (turkishCases.lowerText (lit "ADM" ++ [0x130] ++ lit "N_reset")) =
    isPrivilegedTool turkish (lit "ADM" ++ [0x130] ++ lit "N_reset") ↔
      (Reads turkish turkishPoints turkishCases turkishPlain (lit "ADM" ++ [0x130] ++
        lit "N_reset") →
        (Keeps turkish turkishPoints turkishCases turkishPlain (turkishCases.lowerText (lit "ADM" ++
          [0x130] ++ lit "N_reset")) ↔
          Keeps turkish turkishPoints turkishCases turkishPlain (lit "ADM" ++ [0x130] ++
            lit "N_reset"))) :=
  spelling_immaterial_iff turkish_follows .lower

/-- With a dotless letter in the prefix a name is not privileged, and its upper case is. -/
theorem dotless_name_missed :
    ¬ ∀ name', Respelled turkish turkishPoints turkishCases turkishPlain (lit "adm" ++ [0x131] ++
      lit "n_reset") name' →
    isPrivilegedTool turkish name' = isPrivilegedTool turkish (lit "adm" ++ [0x131] ++
      lit "n_reset") := by
  intro immaterial
  have same := immaterial _ .upper
  revert same
  decide

end QuilrMcp.McpGateway.Spelling
