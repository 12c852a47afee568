import QuilrMcp.Library.JsonProgress
import QuilrMcp.Library.JsonKeys
import Mathlib.Data.List.Find
import Mathlib.Data.List.Forall2

/-! Texts that are the same but for the characters that are not ASCII. A JSON reader finds the same in both
but for the strings that have such characters. -/
namespace QuilrMcp.Library.Json
open Text

/-- Some characters, none of them ASCII. -/
def Foreign (text : Str) : Prop := text ≠ [] ∧ ∀ code ∈ text, 128 ≤ code

theorem Foreign.cons {text : Str} (foreign : Foreign text) :
    ∃ code rest, text = code::rest ∧ 128 ≤ code ∧ ∀ other ∈ rest, 128 ≤ other := by
  obtain ⟨filled,all⟩ := foreign
  obtain ⟨code,rest,rfl⟩ := List.exists_cons_of_ne_nil filled
  exact ⟨code,rest,rfl,List.forall_mem_cons.mp all⟩

/-- The ASCII characters are the same, with something foreign in the same places between them. -/
inductive Blurred : Str → Str → Prop
  | nil : Blurred [] []
  | same {code : Nat} {text text' : Str} : code < 128 → Blurred text text' →
      Blurred (code::text) (code::text')
  | run {front front' text text' : Str} : Foreign front → Foreign front' → Blurred text text' →
      Blurred (front ++ text) (front' ++ text')

namespace Blurred

theorem symm {text text' : Str} (blurred : Blurred text text') : Blurred text' text := by
  induction blurred with
  | nil => exact .nil
  | same small _ ih => exact .same small ih
  | run foreign foreign' _ ih => exact .run foreign' foreign ih

theorem refl (text : Str) : Blurred text text := by
  induction text with
  | nil => exact .nil
  | cons code text ih =>
    by_cases small : code < 128
    · exact .same small ih
    · have foreign : Foreign [code] :=
        ⟨List.cons_ne_nil _ _,List.forall_mem_singleton.mpr (by omega)⟩
      exact .run foreign foreign ih

theorem head {code : Nat} {text text' : Str} (small : code < 128)
    (blurred : Blurred (code::text) text') :
    ∃ rest, text' = code::rest ∧ Blurred text rest := by
  generalize whole : code::text = other at blurred
  cases blurred with
  | nil => contradiction
  | same _ later =>
    cases whole
    exact ⟨_,rfl,later⟩
  | run foreign _ _ =>
    obtain ⟨first,rest,rfl,large,-⟩ := foreign.cons
    rw [List.cons_append,List.cons.injEq] at whole
    omega

theorem empty {text text' : Str} (blurred : Blurred text text') : text = [] ↔ text' = [] := by
  cases blurred with
  | nil => exact Iff.rfl
  | same _ _ => exact iff_of_false (List.cons_ne_nil _ _) (List.cons_ne_nil _ _)
  | run foreign foreign' _ => simp [foreign.1,foreign'.1]

/-- A text of ASCII at the front is at the front of both. -/
theorem starts {name text text' : Str} (ascii : ∀ code ∈ name, code < 128)
    (blurred : Blurred text text') (start : name <+: text) :
    name <+: text' ∧ Blurred (text.drop name.length) (text'.drop name.length) := by
  induction name generalizing text text' with
  | nil => exact ⟨List.nil_prefix,blurred⟩
  | cons code name ih =>
    obtain ⟨small,ascii⟩ := List.forall_mem_cons.mp ascii
    obtain ⟨more,rfl⟩ := start
    obtain ⟨rest,rfl,later⟩ := blurred.head small
    obtain ⟨start,dropped⟩ := ih ascii later (List.prefix_append name more)
    exact ⟨List.cons_prefix_cons.mpr ⟨rfl,start⟩,dropped⟩

theorem ascii {text text' : Str} (ascii : ∀ code ∈ text, code < 128)
    (blurred : Blurred text text') : text' = text := by
  obtain ⟨⟨more,rfl⟩,dropped⟩ := blurred.starts ascii (List.prefix_refl text)
  rw [List.drop_length,List.drop_left] at dropped
  rw [dropped.empty.mp rfl,List.append_nil]

/-- A stretch of ASCII characters ends at the same place. -/
theorem span {p : Nat → Bool} (apart : ∀ code, 128 ≤ code → p code = false) {text text' : Str}
    (blurred : Blurred text text') :
    text.takeWhile p = text'.takeWhile p ∧ Blurred (text.dropWhile p) (text'.dropWhile p) := by
  induction blurred with
  | nil => exact ⟨rfl,.nil⟩
  | @same code text text' small later ih =>
    cases known : p code with
    | true => exact ⟨by simp [known,ih.1],by simpa [known] using ih.2⟩
    | false => exact ⟨by simp [known],by simpa [known] using .same small later⟩
  | run foreign foreign' later _ =>
    have whole := Blurred.run foreign foreign' later
    obtain ⟨code,rest,rfl,large,-⟩ := foreign.cons
    obtain ⟨code',rest',rfl,large',-⟩ := foreign'.cons
    exact ⟨by simp [apart code large,apart code' large'],by simpa [apart code large,apart code' large'] using whole⟩

theorem skipSpace {text text' : Str} (blurred : Blurred text text') :
    Blurred (skipSpace text) (Json.skipSpace text') := by
  apply (blurred.span _).2
  intro code large
  simp only [isSpace,Bool.or_eq_false_iff,beq_eq_false_iff_ne]
  omega

end Blurred

private theorem foreign_digit {code : Nat} (large : 128 ≤ code) : isDigit code = false := by
  simp only [isDigit,Bool.and_eq_false_iff,decide_eq_false_iff_not]
  omega

private theorem foreign_minus {code : Nat} (large : 128 ≤ code) :
    (some code == some 45) = false := by
  apply beq_eq_false_iff_ne.mpr
  simp only [ne_eq,Option.some.injEq]
  omega

/-- Two scans fail both, or take the same and leave texts that are blurred. -/
def Alongside {α : Type} (scan scan' : Option (α × Str)) : Prop :=
  (scan = none ∧ scan' = none) ∨ ∃ taken rest rest', scan = some (taken,rest) ∧
  scan' = some (taken,rest') ∧ Blurred rest rest'

private theorem scanInteger_blurred {text text' : Str} (blurred : Blurred text text') :
    Alongside (scanInteger text) (scanInteger text') := by
  cases blurred with
  | nil => exact Or.inl ⟨rfl,rfl⟩
  | @same digit text text' small later =>
    simp only [scanInteger]
    split_ifs with zero leading
    · exact Or.inr ⟨_,_,_,rfl,rfl,later⟩
    · obtain ⟨taken,dropped⟩ := later.span (fun _ => foreign_digit)
      exact Or.inr ⟨_,_,_,rfl,by rw [taken],dropped⟩
    · exact Or.inl ⟨rfl,rfl⟩
  | run foreign foreign' later =>
    obtain ⟨code,rest,rfl,large,-⟩ := foreign.cons
    obtain ⟨code',rest',rfl,large',-⟩ := foreign'.cons
    refine Or.inl ⟨?_,?_⟩
    · rw [List.cons_append,scanInteger,if_neg (by omega),foreign_digit large,
        if_neg Bool.false_ne_true]
    · rw [List.cons_append,scanInteger,if_neg (by omega),foreign_digit large',
        if_neg Bool.false_ne_true]

private theorem scanFraction_blurred {text text' : Str} (blurred : Blurred text text') :
    Alongside (scanFraction text) (scanFraction text') := by
  cases blurred with
  | nil => exact Or.inl ⟨rfl,rfl⟩
  | same small later =>
    cases later with
    | nil => exact Or.inl ⟨rfl,rfl⟩
    | @same digit text text' small later =>
      simp only [scanFraction]
      split_ifs with shape
      · obtain ⟨taken,dropped⟩ := later.span (fun _ => foreign_digit)
        exact Or.inr ⟨_,_,_,rfl,by rw [taken],dropped⟩
      · exact Or.inl ⟨rfl,rfl⟩
    | run foreign foreign' later =>
      obtain ⟨code,rest,rfl,large,-⟩ := foreign.cons
      obtain ⟨code',rest',rfl,large',-⟩ := foreign'.cons
      exact Or.inl
        ⟨by simp [scanFraction,foreign_digit large],by simp [scanFraction,foreign_digit large']⟩
  | run foreign foreign' later =>
    have fails {code : Nat} (large : 128 ≤ code) (rest : Str) : scanFraction (code::rest) =
      none := by
      cases rest with
      | nil => rfl
      | cons digit rest => rw [scanFraction,if_neg (by omega)]
    obtain ⟨code,rest,rfl,large,-⟩ := foreign.cons
    obtain ⟨code',rest',rfl,large',-⟩ := foreign'.cons
    exact Or.inl ⟨fails large _,fails large' _⟩

private theorem scanExponent_blurred {text text' : Str} (blurred : Blurred text text') :
    Alongside (scanExponent text) (scanExponent text') := by
  cases blurred with
  | nil => exact Or.inl ⟨rfl,rfl⟩
  | same small later =>
    cases later with
    | nil => exact Or.inl ⟨rfl,rfl⟩
    | @same second text text' small later =>
      obtain ⟨taken,dropped⟩ := later.span (fun _ => foreign_digit)
      simp only [scanExponent,← taken]
      split_ifs with shape sign none digit
      · exact Or.inl ⟨rfl,rfl⟩
      · exact Or.inr ⟨_,_,_,rfl,rfl,dropped⟩
      · exact Or.inr ⟨_,_,_,rfl,rfl,dropped⟩
      · exact Or.inl ⟨rfl,rfl⟩
      · exact Or.inl ⟨rfl,rfl⟩
    | run foreign foreign' later =>
      have fails (letter : Nat) {code : Nat} (large : 128 ≤ code) (rest : Str) : scanExponent
        (letter::code::rest) = none := by
        have unsigned : ¬ (code = 43 ∨ code = 45) := by omega
        simp [scanExponent,unsigned,foreign_digit large]
      obtain ⟨code,rest,rfl,large,-⟩ := foreign.cons
      obtain ⟨code',rest',rfl,large',-⟩ := foreign'.cons
      exact Or.inl ⟨fails _ large _,fails _ large' _⟩
  | run foreign foreign' later =>
    have fails {code : Nat} (large : 128 ≤ code) (rest : Str) : scanExponent (code::rest) =
      none := by
      cases rest with
      | nil => rfl
      | cons second rest => rw [scanExponent,if_neg (by omega)]
    obtain ⟨code,rest,rfl,large,-⟩ := foreign.cons
    obtain ⟨code',rest',rfl,large',-⟩ := foreign'.cons
    exact Or.inl ⟨fails large _,fails large' _⟩

private theorem optional_blurred {scan scan' : Option (Str × Str)} {text text' : Str}
    (alongside : Alongside scan scan') (blurred : Blurred text text') :
    (scan.getD ([],text)).1 = (scan'.getD ([],text')).1 ∧
    Blurred (scan.getD ([],text)).2 (scan'.getD ([],text')).2 := by
  rcases alongside with ⟨rfl,rfl⟩ | ⟨taken,rest,rest',rfl,rfl,later⟩
  · exact ⟨rfl,blurred⟩
  · exact ⟨rfl,later⟩

theorem scanNumber_blurred {text text' : Str} (blurred : Blurred text text') :
    Alongside (scanNumber text) (scanNumber text') := by
  have sign : (text.head? == some 45) = (text'.head? == some 45) ∧
      Blurred (if text.head? == some 45 then text.tail else text)
        (if text'.head? == some 45 then text'.tail else text') := by
    cases blurred with
    | nil => exact ⟨rfl,.nil⟩
    | @same code text text' small later =>
      refine ⟨rfl,?_⟩
      by_cases minus : code = 45
      · simpa [minus] using later
      · simpa [minus] using Blurred.same small later
    | run foreign foreign' later =>
      have whole := Blurred.run foreign foreign' later
      obtain ⟨code,rest,rfl,large,-⟩ := foreign.cons
      obtain ⟨code',rest',rfl,large',-⟩ := foreign'.cons
      simpa [foreign_minus large,foreign_minus large'] using whole
  obtain ⟨negative,unsigned⟩ := sign
  simp only [scanNumber]
  rcases scanInteger_blurred unsigned with ⟨none,none'⟩ | ⟨digits,rest,rest',some_,some',later⟩
  · rw [none,none']
    exact Or.inl ⟨rfl,rfl⟩
  · rw [some_,some']
    obtain ⟨fraction,left⟩ := optional_blurred (scanFraction_blurred later) later
    obtain ⟨exponent,left'⟩ := optional_blurred (scanExponent_blurred left) left
    refine Or.inr ⟨_,_,_,rfl,?_,left'⟩
    rw [negative,fraction,exponent]

/-- The same text, or two that are not ASCII. -/
def Faint (text text' : Str) : Prop :=
  text = text' ∨ (∃ code ∈ text, 128 ≤ code) ∧ ∃ code ∈ text', 128 ≤ code

/-- A text of ASCII is one of the two exactly if it is the other. -/
theorem Faint.ascii {text text' name : Str} (faint : Faint text text')
    (ascii : ∀ code ∈ name, code < 128) :
    text = name ↔ text' = name := by
  rcases faint with rfl | ⟨⟨code,member,large⟩,code',member',large'⟩
  · exact Iff.rfl
  · refine iff_of_false ?_ ?_
    · rintro rfl
      exact absurd (ascii code member) (by omega)
    · rintro rfl
      exact absurd (ascii code' member') (by omega)

private theorem joinUnits_foreign (units : List (Bool × Nat))
    (foreign : ∃ unit ∈ units, 128 ≤ unit.2) :
    ∃ code ∈ joinUnits units, 128 ≤ code := by
  induction units using joinUnits.induct with
  | case1 => simp at foreign
  | case2 unit => simpa [joinUnits] using foreign
  | case3 first second rest paired ih =>
    rw [joinUnits,if_pos paired]
    have astral := joinPair_astral first.2 second.2
    exact ⟨_,List.mem_cons_self,by omega⟩
  | case4 first second rest unpaired ih =>
    rw [joinUnits,if_neg unpaired]
    obtain ⟨unit,member,large⟩ := foreign
    rcases List.mem_cons.mp member with rfl | later
    · exact ⟨_,List.mem_cons_self,large⟩
    · obtain ⟨code,inside,large⟩ := ih ⟨unit,later,large⟩
      exact ⟨code,List.mem_cons_of_mem _ inside,large⟩

private theorem scans_foreign (front : Str) (all : ∀ code ∈ front, 128 ≤ code) (text rest : Str)
    (units : List (Bool × Nat)) :
    Scans (front ++ text) units rest ↔
      ∃ more, units = front.map (fun code => (false,code)) ++ more ∧ Scans text more rest := by
  induction front generalizing units with
  | nil => simp
  | cons code front ih =>
    obtain ⟨large,all⟩ := List.forall_mem_cons.mp all
    rw [List.cons_append,scans_plain (by simp only [quote]; omega) (by simp only [backslash]; omega)
      (by omega)]
    constructor
    · rintro ⟨tail,rfl,later⟩
      obtain ⟨more,rfl,last⟩ := (ih all tail).mp later
      exact ⟨more,rfl,last⟩
    · rintro ⟨more,rfl,last⟩
      exact ⟨_,rfl,(ih all _).mpr ⟨more,rfl,last⟩⟩

/-- The units of the two are the same, or neither are ASCII. -/
private def UnitsFaint (units units' : List (Bool × Nat)) : Prop :=
  units = units' ∨ (∃ unit ∈ units, 128 ≤ unit.2) ∧ ∃ unit ∈ units', 128 ≤ unit.2

private theorem UnitsFaint.cons {units units' : List (Bool × Nat)} (faint : UnitsFaint units units')
    (unit : Bool × Nat) :
    UnitsFaint (unit::units) (unit::units') := by
  rcases faint with rfl | ⟨⟨code,member,large⟩,code',member',large'⟩
  · exact Or.inl rfl
  · exact Or.inr ⟨⟨code,List.mem_cons_of_mem _ member,large⟩,code',
      List.mem_cons_of_mem _ member',large'⟩

private theorem scans_blurred {text text' rest : Str} {units : List (Bool × Nat)}
    (blurred : Blurred text text') (scans : Scans text units rest) :
    ∃ units' rest', Scans text' units' rest' ∧ UnitsFaint units units' ∧ Blurred rest rest' := by
  cases blurred with
  | nil => cases scans
  | same small later =>
    cases scans with
    | closed => exact ⟨_,_,.closed,Or.inl rfl,later⟩
    | numbered filled hex inner =>
      obtain ⟨first,second,third,fourth⟩ := (hex4_small hex).1
      obtain ⟨_,rfl,first_⟩ := later.head (by decide)
      obtain ⟨_,rfl,second_⟩ := first_.head first
      obtain ⟨_,rfl,third_⟩ := second_.head second
      obtain ⟨_,rfl,fourth_⟩ := third_.head third
      obtain ⟨tail',rfl,last⟩ := fourth_.head fourth
      obtain ⟨units',rest',inner',faint,left⟩ := scans_blurred last inner
      exact ⟨_,rest',.numbered (mt last.empty.mpr filled) hex inner',faint.cons _,left⟩
    | escaped other simple inner =>
      obtain ⟨tail',rfl,last⟩ := later.head (simpleEscape_small simple).1
      obtain ⟨units',rest',inner',faint,left⟩ := scans_blurred last inner
      exact ⟨_,rest',.escaped other simple inner',faint.cons _,left⟩
    | plain unquoted unescaped printable inner =>
      obtain ⟨units',rest',inner',faint,left⟩ := scans_blurred later inner
      exact ⟨_,rest',.plain unquoted unescaped printable inner',faint.cons _,left⟩
  | @run front front' tail tail' foreign foreign' later =>
    obtain ⟨more,rfl,inner⟩ := (scans_foreign front foreign.2 tail rest units).mp scans
    have shorter : tail.length < (front ++ tail).length := by
      have filled := List.length_pos_iff.mpr foreign.1
      rw [List.length_append]
      omega
    obtain ⟨more',rest',inner',-,left⟩ := scans_blurred later inner
    refine ⟨_,rest',(scans_foreign front' foreign'.2 tail' rest' _).mpr ⟨more',rfl,inner'⟩,
      Or.inr ⟨?_,?_⟩,left⟩
    · obtain ⟨code,front,rfl,large,-⟩ := foreign.cons
      exact ⟨(false,code),by simp,large⟩
    · obtain ⟨code,front,rfl,large,-⟩ := foreign'.cons
      exact ⟨(false,code),by simp,large⟩
termination_by text.length

theorem scanString_blurred {ε : Type} {text text' value rest : Str} (blurred : Blurred text text')
    (read : scanString (ε := ε) text = .ok (value,rest)) : ∃ value' rest',
      scanString (ε := ε) text' = .ok (value',rest') ∧ Faint value value' ∧ Blurred rest rest' := by
  obtain ⟨units,scans,rfl⟩ := scanString_iff.mp read
  obtain ⟨units',rest',scans',faint,left⟩ := scans_blurred blurred scans
  refine ⟨_,rest',scanString_iff.mpr ⟨units',scans',rfl⟩,?_,left⟩
  rcases faint with rfl | ⟨foreign,foreign'⟩
  · exact Or.inl rfl
  · exact Or.inr ⟨joinUnits_foreign _ foreign,joinUnits_foreign _ foreign'⟩

/-- Two values that agree in all but the strings that are not ASCII, and in the fields of ASCII keys. -/
inductive Alike : Value → Value → Prop
  | same (value : Value) : Alike value value
  | str (text text' : Str) : Alike (.str text) (.str text')
  | list (items items' : List Value) : Alike (.list items) (.list items')
  | dict {fields fields' : List (Str × Value)} :
      (∀ name : Str, (∀ code ∈ name, code < 128) →
        ((lookup name fields).isSome = (lookup name fields').isSome)) →
      (∀ name : Str, (∀ code ∈ name, code < 128) → ∀ value value', lookup name fields = some value →
        lookup name fields' = some value' → Alike value value') →
        Alike (.dict fields) (.dict fields')

/-- Both have a value under the key, and the two are alike, or neither has. -/
theorem Alike.field {fields fields' : List (Str × Value)} {name : Str}
    (alike : Alike (.dict fields) (.dict fields')) (ascii : ∀ code ∈ name, code < 128) :
    (lookup name fields = none ∧ lookup name fields' = none) ∨
      ∃ value value', lookup name fields = some value ∧ lookup name fields' = some value' ∧
      Alike value value' := by
  cases alike with
  | same =>
    cases lookup name fields with
    | none => exact Or.inl ⟨rfl,rfl⟩
    | some value => exact Or.inr ⟨value,value,rfl,rfl,.same value⟩
  | dict present values =>
    have both := present name ascii
    cases first : lookup name fields with
    | none =>
      rw [first] at both
      exact Or.inl ⟨rfl,Option.isNone_iff_eq_none.mp (Option.isSome_eq_false_iff.mp both.symm)⟩
    | some value =>
      rw [first] at both
      obtain ⟨value',second⟩ := Option.isSome_iff_exists.mp both.symm
      exact Or.inr ⟨value,value',rfl,second,values name ascii value value' first second⟩

/-- Members of the same place, with keys and values that agree. -/
private def Members : List (Str × Value) → List (Str × Value) → Prop :=
  List.Forall₂ (fun member member' => Faint member.1 member'.1 ∧ Alike member.2 member'.2)

private theorem ofPairs_alike {members members' : List (Str × Value)}
    (alike : Members members members') :
    Alike (.dict (Dict.ofPairs members)) (.dict (Dict.ofPairs members')) := by
  let Agree (fields fields' : List (Str × Value)) : Prop :=
    ∀ name : Str, (∀ code ∈ name, code < 128) →
    (fields.lookup name).isSome = (fields'.lookup name).isSome ∧
      ∀ value value', fields.lookup name = some value → fields'.lookup name = some value' →
      Alike value value'
  have from_ (fields fields' : List (Str × Value)) (agree : Agree fields fields') :
      Agree (members.foldl (fun fields pair => Dict.assign pair.1 pair.2 fields) fields)
        (members'.foldl (fun fields pair => Dict.assign pair.1 pair.2 fields) fields') := by
    induction alike generalizing fields fields' with
    | nil => exact agree
    | @cons member member' members members' first _ ih =>
      apply ih
      intro name ascii
      by_cases same : name = member.1
      · have same' : name = member'.1 := ((first.1.ascii ascii).mp same.symm).symm
        rw [same,Dict.lookup_assign,← same,same',Dict.lookup_assign]
        refine ⟨rfl,?_⟩
        rintro value value' ⟨⟩ ⟨⟩
        exact first.2
      · have other : name ≠ member'.1 :=
          fun equal => same ((first.1.ascii ascii).mpr equal.symm).symm
        rw [Dict.lookup_assign_other _ _ _ _ same,Dict.lookup_assign_other _ _ _ _ other]
        exact agree name ascii
  have whole := from_ [] [] (fun name ascii => ⟨rfl,by simp⟩)
  have first (members : List (Str × Value)) (name : Str) : lookup name (Dict.ofPairs members) =
    (Dict.ofPairs members).lookup name :=
    lookup_first (Dict.ofPairs_keys members).1 name
  apply Alike.dict
  · intro name ascii
    rw [first,first]
    exact (whole name ascii).1
  · intro name ascii
    rw [first,first]
    exact (whole name ascii).2

section Reading
variable {ε : Type} (format : FloatFormat)

abbrev asDict : List (Str × Value) → Except ε (List (Str × Value)) :=
  fun pairs => .ok (Dict.ofPairs pairs)

private theorem readScalar_blurred {text text' rest : Str} {value : Value}
    (blurred : Blurred text text') (read : readScalar (ε := ε) format text = .ok (value,rest)) :
    ∃ rest', readScalar (ε := ε) format text' = .ok (value,rest') ∧ Blurred rest rest' := by
  have printed (constant : Str × Value) (member : constant ∈ constants) : ∀ code ∈ constant.1,
    code < 128 :=
    fun code inside => ((constants_printed constant member).1 code inside).2
  have names : ∀ constant ∈ constants, constant.1.isPrefixOf text =
    constant.1.isPrefixOf text' := by
    intro constant member
    rw [Bool.eq_iff_iff,List.isPrefixOf_iff_prefix,List.isPrefixOf_iff_prefix]
    exact ⟨fun start => (blurred.starts (printed constant member) start).1,
      fun start => (blurred.symm.starts (printed constant member) start).1⟩
  have found : constants.find? (fun constant => constant.1.isPrefixOf text) =
      constants.find? (fun constant => constant.1.isPrefixOf text') := List.find?_congr names
  simp only [readScalar,← found] at read ⊢
  cases known : constants.find? (fun constant => constant.1.isPrefixOf text) with
  | some constant =>
    rw [known] at read
    cases read
    have start : constant.1 <+: text :=
      List.isPrefixOf_iff_prefix.mp (by simpa using List.find?_some known)
    exact ⟨_,rfl,(blurred.starts (printed constant (List.mem_of_find?_eq_some known)) start).2⟩
  | none =>
    rw [known] at read
    simp only [readNumber] at read ⊢
    rcases scanNumber_blurred blurred with ⟨none,-⟩ | ⟨numeral,left,left',some_,some',later⟩
    · rw [none] at read
      contradiction
    · rw [some_] at read
      rw [some']
      dsimp only at read ⊢
      split_ifs at read ⊢ <;> cases read <;> exact ⟨_,rfl,later⟩

private theorem Blurred.opens {code : Nat} {text text' : Str} (small : code < 128)
    (blurred : Blurred text text') :
    text.head? = some code ↔ text'.head? = some code := by
  have onward {text text' : Str} (blurred : Blurred text text') (start : text.head? =
    some code) : text'.head? = some code := by
    obtain ⟨rest,rfl⟩ := List.head?_eq_some_iff.mp start
    obtain ⟨rest',rfl,-⟩ := blurred.head small
    rfl
  exact ⟨onward blurred,onward blurred.symm⟩

private theorem Blurred.mark {code : Nat} {text text' rest : Str} (small : code < 128)
    (blurred : Blurred text text') (shape : Json.skipSpace text = code::rest) :
    ∃ rest', Json.skipSpace text' = code::rest' ∧ Blurred rest rest' := by
  have trimmed := blurred.skipSpace
  rw [shape] at trimmed
  exact trimmed.head small

private theorem readValue_head {hook : List (Str × Value) → Except ε (List (Str × Value))}
    {fuel code : Nat} {tail rest : Str} {value : Value}
    (read : readValue format hook fuel (code::tail) = .ok (value,rest)) : code < 128 := by
  by_contra large
  cases fuel with
  | zero => simp [readValue] at read
  | succ fuel =>
    rw [readValue.eq_def] at read
    dsimp only at read
    rw [if_neg (by simp only [quote]; omega),if_neg (by omega),if_neg (by omega)] at read
    have nameless : constants.find? (fun constant => constant.1.isPrefixOf (code::tail)) =
      none := by
      apply List.find?_eq_none.mpr
      intro constant member start
      obtain ⟨printed,filled⟩ := constants_printed constant member
      obtain ⟨first,more,shape⟩ := List.exists_cons_of_ne_nil filled
      rw [shape] at start printed
      obtain ⟨rfl,-⟩ := List.cons_prefix_cons.mp (List.isPrefixOf_iff_prefix.mp start)
      exact large (printed first List.mem_cons_self).2
    have foreign := Nat.le_of_not_lt large
    have numberless : scanNumber (code::tail) = none := by
      simp [scanNumber,foreign_minus foreign,scanInteger,foreign_digit foreign,
        show code ≠ 48 by omega]
    simp [readScalar,nameless,readNumber,numberless] at read

/-- Blurred texts read alike, with the same fuel. The induction is on the fuel, over the three functions. -/
private theorem read_blurred (fuel : Nat) :
    (∀ text text' value rest, Blurred text text' →
      readValue format (asDict (ε := ε)) fuel text = .ok (value,rest) →
      ∃ value' rest', readValue format (asDict (ε := ε)) fuel text' = .ok (value',rest') ∧
      Alike value value' ∧ Blurred rest rest') ∧
    (∀ text text' items rest, Blurred text text' →
      readItems format (asDict (ε := ε)) fuel text = .ok (items,rest) →
      ∃ items' rest', readItems format (asDict (ε := ε)) fuel text' = .ok (items',rest') ∧
      Blurred rest rest') ∧
    (∀ text text' members rest, Blurred text text' →
      readMembers format (asDict (ε := ε)) fuel text = .ok (members,rest) →
      ∃ members' rest', readMembers format (asDict (ε := ε)) fuel text' = .ok (members',rest') ∧
      Members members members' ∧
        Blurred rest rest') := by
  induction fuel with
  | zero => exact ⟨by simp [readValue],by simp [readItems],by simp [readMembers]⟩
  | succ fuel ih =>
    obtain ⟨onValue,onItems,onMembers⟩ := ih
    refine ⟨?_,?_,?_⟩
    · intro text text' value rest blurred read
      cases readValue_iff.mp read with
      | string scanned =>
        obtain ⟨tail',rfl,later⟩ := blurred.head (by decide)
        obtain ⟨value',left',scanned',-,left⟩ := scanString_blurred later scanned
        exact ⟨_,_,readValue_iff.mpr (.string scanned'),.str _ _,left⟩
      | emptyList closed =>
        obtain ⟨tail',rfl,later⟩ := blurred.head (by decide)
        obtain ⟨left',closed',left⟩ := later.mark (by decide) closed
        exact ⟨_,_,readValue_iff.mpr (.emptyList closed'),.list _ _,left⟩
      | list filled inner =>
        obtain ⟨tail',rfl,later⟩ := blurred.head (by decide)
        have filled' := mt (later.skipSpace.opens (by decide)).mpr filled
        obtain ⟨items',left',inner',left⟩ := onItems _ _ _ _ later.skipSpace inner
        exact ⟨_,_,readValue_iff.mpr (.list filled' inner'),.list _ _,left⟩
      | emptyDict closed hooked =>
        obtain ⟨tail',rfl,later⟩ := blurred.head (by decide)
        obtain ⟨left',closed',left⟩ := later.mark (by decide) closed
        exact ⟨_,_,readValue_iff.mpr (.emptyDict closed' hooked),.same _,left⟩
      | dict filled inner hooked =>
        obtain ⟨tail',rfl,later⟩ := blurred.head (by decide)
        have filled' := mt (later.skipSpace.opens (by decide)).mpr filled
        obtain ⟨members',left',inner',agree,left⟩ := onMembers _ _ _ _ later.skipSpace inner
        cases hooked
        exact ⟨_,_,readValue_iff.mpr (.dict filled' inner' rfl),ofPairs_alike agree,left⟩
      | scalar string list object scalar =>
        obtain ⟨rest',scalar',left⟩ := readScalar_blurred format blurred scalar
        obtain ⟨tail',rfl,later⟩ := blurred.head (readValue_head format read)
        exact ⟨_,_,readValue_iff.mpr (.scalar string list object scalar'),.same _,left⟩
    · intro text text' items rest blurred read
      cases readItems_iff.mp read with
      | last first closed =>
        obtain ⟨item',left',first',-,later⟩ := onValue _ _ _ _ blurred first
        obtain ⟨rest',closed',left⟩ := later.mark (by decide) closed
        exact ⟨_,_,readItems_iff.mpr (.last first' closed'),left⟩
      | more first comma filled inner =>
        obtain ⟨item',left',first',-,later⟩ := onValue _ _ _ _ blurred first
        obtain ⟨again',comma',later'⟩ := later.mark (by decide) comma
        have filled' := mt (later'.skipSpace.opens (by decide)).mpr filled
        obtain ⟨items',rest',inner',left⟩ := onItems _ _ _ _ later'.skipSpace inner
        exact ⟨_,_,readItems_iff.mpr (.more first' comma' filled' inner'),left⟩
    · intro text text' members rest blurred read
      cases readMembers_iff.mp read with
      | last scanned colon first closed =>
        obtain ⟨tail',rfl,tail⟩ := blurred.head (by decide)
        obtain ⟨key',left',scanned',faint,later⟩ := scanString_blurred tail scanned
        obtain ⟨after',colon',behind⟩ := later.mark (by decide) colon
        obtain ⟨value',left'',first',alike,later'⟩ := onValue _ _ _ _ behind.skipSpace first
        obtain ⟨rest',closed',left⟩ := later'.mark (by decide) closed
        exact ⟨_,_,readMembers_iff.mpr (.last scanned' colon' first' closed'),
          .cons ⟨faint,alike⟩ .nil,left⟩
      | more scanned colon first comma filled inner =>
        obtain ⟨tail',rfl,tail⟩ := blurred.head (by decide)
        obtain ⟨key',left',scanned',faint,later⟩ := scanString_blurred tail scanned
        obtain ⟨after',colon',behind⟩ := later.mark (by decide) colon
        obtain ⟨value',left'',first',alike,later'⟩ := onValue _ _ _ _ behind.skipSpace first
        obtain ⟨again',comma',onward⟩ := later'.mark (by decide) comma
        have filled' := mt (onward.skipSpace.opens (by decide)).mpr filled
        obtain ⟨members',rest',inner',agree,left⟩ := onMembers _ _ _ _ onward.skipSpace inner
        exact ⟨_,_,readMembers_iff.mpr (.more scanned' colon' first' comma' filled' inner'),
          .cons ⟨faint,alike⟩ agree,left⟩

/-- A text that is read as one value begins and ends with ASCII characters. -/
theorem loads_ends {hook : List (Str × Value) → Except ε (List (Str × Value))} {text : Str}
    {value : Value} (loaded : loads format hook text = .ok value) :
    (∀ code ∈ text.head?, code < 128) ∧ ∀ code ∈ text.getLast?, code < 128 := by
  have space {code : Nat} (space : isSpace code = true) : code < 128 := by
    simp only [isSpace,Bool.or_eq_true,beq_iff_eq] at space
    omega
  simp only [loads,decode] at loaded
  split_ifs at loaded
  split at loaded
  · contradiction
  · rename_i read_ rest read
    split_ifs at loaded with ended
    obtain ⟨taken,last,whole,small⟩ := (read_takes format hook _).1 _ _ _ read
    constructor
    · intro code start
      obtain ⟨tail,rfl⟩ := List.head?_eq_some_iff.mp start
      by_cases blank : isSpace code = true
      · exact space blank
      · rw [skipSpace,List.dropWhile_cons_of_neg blank] at read
        exact readValue_head format read
    · intro code final
      have blank : ∀ code ∈ rest, isSpace code = true := by
        simpa [skipSpace] using ended
      obtain ⟨front,shape⟩ : ∃ front, text = front ++ last::rest := by
        obtain ⟨spaces,shape⟩ := List.dropWhile_suffix isSpace (l := text)
        refine ⟨spaces ++ taken,?_⟩
        rw [← shape,← skipSpace,whole,List.append_assoc]
      rw [shape,List.getLast?_append_of_ne_nil _ (List.cons_ne_nil _ _)] at final
      rcases List.mem_cons.mp (List.mem_of_getLast? final) with rfl | later
      · exact small
      · exact space (blank code later)

theorem loads_blurred {text text' : Str} {value : Value} (blurred : Blurred text text')
    (loaded : loads format (asDict (ε := ε)) text = .ok value) :
    ∃ value', loads format (asDict (ε := ε)) text' = .ok value' ∧ Alike value value' := by
  have heads := (loads_ends format loaded).1
  have unmarked : text'.head? ≠ some 0xFEFF := by
    intro mark
    cases text with
    | nil => simp [blurred.empty.mp rfl] at mark
    | cons code tail =>
      obtain ⟨tail',rfl,-⟩ := blurred.head (heads code rfl)
      have small := heads code rfl
      simp only [List.head?_cons,Option.some.injEq] at mark
      omega
  simp only [loads,decode] at loaded ⊢
  rw [if_neg unmarked]
  split_ifs at loaded
  split at loaded
  · contradiction
  · rename_i read_ rest read
    split_ifs at loaded with ended
    cases loaded
    -- Fuel that is enough for both.
    have short : (skipSpace text).length ≤ text.length := (List.dropWhile_suffix _).length_le
    have short' : (skipSpace text').length ≤ text'.length := (List.dropWhile_suffix _).length_le
    have more :=
      ((read_fueled format (asDict (ε := ε)) (2 * text.length +
        2) (2 * (text.length + text'.length) + 2)
      (by omega)).1 (skipSpace text) (by omega)).1
    have fewer :=
      ((read_fueled format (asDict (ε := ε)) (2 * text'.length +
        2) (2 * (text.length + text'.length) + 2)
      (by omega)).1 (skipSpace text') (by omega)).1
    rw [← more] at read
    obtain ⟨value',rest',read',alike,left⟩ :=
      (read_blurred format _).1 _ _ _ _ blurred.skipSpace read
    rw [fewer] at read'
    have ended' : (skipSpace rest').isEmpty = true := by
      rw [List.isEmpty_iff] at ended ⊢
      exact left.skipSpace.empty.mp ended
    rw [read']
    exact ⟨value',if_pos ended',alike⟩

end Reading

end QuilrMcp.Library.Json
