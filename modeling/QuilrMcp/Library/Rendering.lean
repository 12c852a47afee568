import QuilrMcp.Library.Encoding
import QuilrMcp.Library.JsonSteps

/-! The body of a JSON response: compact, not escaped to ASCII, without NaN and the infinities. -/
namespace QuilrMcp.Library.Json
open Text

def isFiniteText (text : Str) : Bool :=
  text ≠ lit "NaN" && text ≠ lit "Infinity" && text ≠ lit "-Infinity"

mutual
def finite : Value → Bool
  | .float text => isFiniteText text
  | .list items => finiteItems items
  | .dict fields => finiteFields fields
  | .null => true
  | .bool _ => true
  | .int _ => true
  | .str _ => true
def finiteItems : List Value → Bool
  | [] => true
  | item::items => finite item && finiteItems items
def finiteFields : List (Str × Value) → Bool
  | [] => true
  | (_,value)::fields => finite value && finiteFields fields
end

def compact : Style := ⟨false,false⟩

/-- `none` where a number is not finite or a string holds a surrogate. -/
def render (value : Value) : Option Bytes :=
  if finite value then Encoding.encodeUtf8 (dumps compact value) else none

theorem finiteItems_iff (items : List Value) :
    finiteItems items = true ↔ ∀ item ∈ items, finite item = true := by
  induction items with
  | nil => simp [finiteItems]
  | cons item items ih => simp [finiteItems,ih]

theorem finiteFields_iff (fields : List (Str × Value)) :
    finiteFields fields = true ↔ ∀ field ∈ fields, finite field.2 = true := by
  induction fields with
  | nil => simp [finiteFields]
  | cons field fields ih => simp [finiteFields,ih]

/-- The characters of a written list are those of its items, and commas. -/
theorem dumpItems_all (style : Style) (items : List Value) (p : Nat → Prop)
    (separator : ∀ code ∈ style.itemSeparator, p code) :
    (∀ code ∈ dumpItems style items, p code) ↔ ∀ item ∈ items,
      ∀ code ∈ dumps style item, p code := by
  induction items with
  | nil => simp [dumpItems]
  | cons item items ih =>
    cases items with
    | nil => simp [dumpItems]
    | cons next items =>
      rw [dumpItems,List.forall_mem_append,List.forall_mem_append,ih]
      simp only [List.forall_mem_cons]
      rw [and_iff_left separator]

/-- The characters of a written object are those of its keys and values, and separators. -/
theorem dumpFields_all (style : Style) (fields : List (Str × Value)) (p : Nat → Prop)
    (separators : (∀ code ∈ style.itemSeparator, p code) ∧ ∀ code ∈ style.keySeparator, p code) :
    (∀ code ∈ dumpFields style fields, p code) ↔
      ∀ field ∈ fields, (∀ code ∈ writeString style field.1, p code) ∧
      ∀ code ∈ dumps style field.2, p code := by
  induction fields with
  | nil => simp [dumpFields]
  | cons field fields ih =>
    cases fields with
    | nil =>
      rw [dumpFields,List.forall_mem_append,List.forall_mem_append,and_iff_left separators.2]
      simp
    | cons next fields =>
      rw [dumpFields,List.forall_mem_append,List.forall_mem_append,List.forall_mem_append,
        List.forall_mem_append,ih,and_iff_left separators.1,and_iff_left separators.2]
      rw [List.forall_mem_cons (a := field)]

theorem scalar_small {code : Nat} (small : code < 0xD800) : isSurrogate code = false := by
  rw [isSurrogate,Bool.and_eq_false_iff]
  exact Or.inl (decide_eq_false (by omega))

theorem unicodeEscape_small (code : Nat) : ∀ part ∈ unicodeEscape code, part < 128 := by
  have digit (value : Nat) : hexCode (value % 16) < 128 := by
    rw [hexCode]
    split_ifs <;> omega
  rw [unicodeEscape]
  simp only [List.forall_mem_cons,digit]
  exact ⟨by decide,by decide,trivial,trivial,trivial,trivial,List.forall_mem_nil _⟩

theorem unicodeEscape_scalar (code : Nat) :
    ∀ part ∈ unicodeEscape code, isSurrogate part = false := by
  intro part member
  have small := unicodeEscape_small code part member
  exact scalar_small (by omega)

/-- A character is written as it is, or it is ASCII and so is what is written for it. -/
theorem escapeCode_raw (code : Nat) :
    escapeCode false code = [code] ∨ (code < 128 ∧ ∀ part ∈ escapeCode false code, part < 128) := by
  by_cases named : Named code
  · obtain ⟨letter,known,-,written⟩ := escapeCode_named false named
    have small : letter < 128 := (by decide : ∀ letter ∈ lit "\"\\bfnrt", letter < 128) letter known
    refine Or.inr ⟨by simp only [Named,quote,backslash] at named; omega,?_⟩
    rw [written]
    exact List.forall_mem_cons.mpr ⟨by decide,List.forall_mem_singleton.mpr small⟩
  · rw [escapeCode_unnamed false named]
    by_cases control : code < 32
    · rw [if_pos control]
      exact Or.inr ⟨by omega,unicodeEscape_small code⟩
    · rw [if_neg control]
      exact Or.inl rfl

theorem escapeCode_scalar (code : Nat) :
    (∀ part ∈ escapeCode false code, isSurrogate part = false) ↔ isSurrogate code = false := by
  rcases escapeCode_raw code with same | ⟨small,written⟩
  · rw [same]
    exact List.forall_mem_singleton
  · refine iff_of_true (fun part member => ?_) (scalar_small (by omega))
    have low := written part member
    exact scalar_small (by omega)

/-- A string is written with a surrogate exactly where it has one. -/
theorem writeString_scalar (style : Style) (raw : style.ensureAscii = false) (text : Str) :
    (∀ code ∈ writeString style text, isSurrogate code = false) ↔ ∀ code ∈ text,
      isSurrogate code = false := by
  rw [writeString,raw,List.forall_mem_append,List.forall_mem_cons,List.forall_mem_flatMap]
  simp only [escapeCode_scalar]
  exact ⟨fun both => both.1.2,fun scalars => ⟨⟨rfl,scalars⟩,by decide⟩⟩

/-- An object is written with a surrogate exactly where a key or a value is. -/
theorem dumps_dict_scalar (style : Style) (raw : style.ensureAscii = false)
    (fields : List (Str × Value)) :
    (∀ code ∈ dumps style (.dict fields), isSurrogate code = false) ↔
      ∀ field ∈ fields, (∀ code ∈ field.1, isSurrogate code = false) ∧ ∀ code ∈ dumps style field.2,
        isSurrogate code = false := by
  have separators : (∀ code ∈ style.itemSeparator, isSurrogate code = false) ∧
      ∀ code ∈ style.keySeparator, isSurrogate code = false := by
    rw [Style.itemSeparator,Style.keySeparator]
    split_ifs <;> decide
  rw [dumps,List.forall_mem_append,List.forall_mem_cons,dumpFields_all style fields _ separators]
  simp only [writeString_scalar style raw]
  exact ⟨fun both => both.1.2,fun scalars => ⟨⟨rfl,scalars⟩,by decide⟩⟩

private theorem escapeCode_range {code : Nat} (small : code < 0x110000) :
    ∀ part ∈ escapeCode false code, part < 0x110000 := by
  intro part member
  rcases escapeCode_raw code with same | ⟨_,written⟩
  · rw [same] at member
    rwa [List.mem_singleton.mp member]
  · have low := written part member
    omega

theorem writeString_range (style : Style) (raw : style.ensureAscii = false) {text : Str}
    (small : ∀ code ∈ text, code < 0x110000) :
    ∀ code ∈ writeString style text, code < 0x110000 := by
  rw [writeString,raw,List.forall_mem_append,List.forall_mem_cons,List.forall_mem_flatMap]
  exact ⟨⟨by decide,fun code member => escapeCode_range (small code member)⟩,by decide⟩

theorem dumps_dict_range (style : Style) (raw : style.ensureAscii = false)
    {fields : List (Str × Value)} (small : ∀ field ∈ fields, (∀ code ∈ field.1, code < 0x110000) ∧
      ∀ code ∈ dumps style field.2, code < 0x110000) :
    ∀ code ∈ dumps style (.dict fields), code < 0x110000 := by
  have separators : (∀ code ∈ style.itemSeparator, code < 0x110000) ∧ ∀ code ∈ style.keySeparator,
    code < 0x110000 := by
    rw [Style.itemSeparator,Style.keySeparator]
    split_ifs <;> decide
  rw [dumps,List.forall_mem_append,List.forall_mem_cons,dumpFields_all style fields _ separators]
  refine ⟨⟨by decide,?_⟩,by decide⟩
  intro field member
  exact ⟨writeString_range style raw (small field member).1,(small field member).2⟩

theorem render_isSome (value : Value) : (render value).isSome = true ↔
    finite value = true ∧ ∀ code ∈ dumps compact value, isSurrogate code = false := by
  rw [render]
  split_ifs with known
  · rw [Encoding.encodeUtf8_isSome]
    exact (and_iff_right known).symm
  · simp [known]

theorem render_list (items : List Value) : (render (.list items)).isSome = true ↔
    ∀ item ∈ items, (render item).isSome = true := by
  have written := dumpItems_all compact items (isSurrogate · = false) (by decide)
  have brackets : (∀ code ∈ dumps compact (.list items), isSurrogate code = false) ↔
      ∀ code ∈ dumpItems compact items, isSurrogate code = false := by
    rw [dumps,List.forall_mem_append,List.forall_mem_cons]
    exact ⟨fun known => known.1.2,fun known => ⟨⟨rfl,known⟩,by simp; rfl⟩⟩
  rw [render_isSome,finite,finiteItems_iff,brackets,written]
  simp only [render_isSome]
  constructor
  · intro both item member
    exact ⟨both.1 item member,both.2 item member⟩
  · intro each
    exact ⟨fun item member => (each item member).1,fun item member => (each item member).2⟩

theorem render_dict (fields : List (Str × Value)) : (render (.dict fields)).isSome = true ↔
    ∀ field ∈ fields, (∀ code ∈ field.1, isSurrogate code = false) ∧
    (render field.2).isSome = true := by
  rw [render_isSome,finite,finiteFields_iff,dumps_dict_scalar compact rfl]
  simp only [render_isSome]
  constructor
  · intro both field member
    exact ⟨(both.2 field member).1,both.1 field member,(both.2 field member).2⟩
  · intro each
    exact ⟨fun field member => (each field member).2.1,fun field member =>
      ⟨(each field member).1,(each field member).2.2⟩⟩

end QuilrMcp.Library.Json
