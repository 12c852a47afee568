import QuilrMcp.Library.Dict
import QuilrMcp.Library.JsonReading
import QuilrMcp.Library.Rendering

/-! Where a stretch of a written value can stand: inside one leaf or one key, and in a string it may
begin in an escape. -/
namespace QuilrMcp.Library.Json
open Text

mutual
/-- What is no list and no dictionary. -/
def leaves : Value → List Value
  | .list items => leavesItems items
  | .dict fields => leavesFields fields
  | .null => [.null]
  | .bool value => [.bool value]
  | .int value => [.int value]
  | .float text => [.float text]
  | .str text => [.str text]
def leavesItems : List Value → List Value
  | [] => []
  | item::items => leaves item ++ leavesItems items
def leavesFields : List (Str × Value) → List Value
  | [] => []
  | (_,value)::fields => leaves value ++ leavesFields fields
end

mutual
def keys : Value → List Str
  | .list items => keysItems items
  | .dict fields => keysFields fields
  | .null => []
  | .bool _ => []
  | .int _ => []
  | .float _ => []
  | .str _ => []
def keysItems : List Value → List Str
  | [] => []
  | item::items => keys item ++ keysItems items
def keysFields : List (Str × Value) → List Str
  | [] => []
  | (key,value)::fields => key::keys value ++ keysFields fields
end

def isScalar : Value → Bool
  | .list _ => false
  | .dict _ => false
  | _ => true

theorem leavesItems_cons (item : Value) (items : List Value) :
    leavesItems (item::items) = leaves item ++ leavesItems items := by
  rw [leavesItems]

theorem keysItems_cons (item : Value) (items : List Value) :
    keysItems (item::items) = keys item ++ keysItems items := by
  rw [keysItems]

theorem leavesFields_cons (key : Str) (value : Value) (fields : List (Str × Value)) :
    leavesFields ((key,value)::fields) = leaves value ++ leavesFields fields := by
  rw [leavesFields]

theorem keysFields_cons (key : Str) (value : Value) (fields : List (Str × Value)) :
    keysFields ((key,value)::fields) = key::keys value ++ keysFields fields := by
  rw [keysFields]

theorem mem_leavesItems {leaf : Value} {items : List Value} :
    leaf ∈ leavesItems items ↔ ∃ item ∈ items, leaf ∈ leaves item := by
  induction items with
  | nil => simp [leavesItems]
  | cons item items ih => rw [leavesItems_cons,List.mem_append,ih,List.exists_mem_cons_iff]

theorem mem_leavesFields {leaf : Value} {fields : List (Str × Value)} :
    leaf ∈ leavesFields fields ↔ ∃ field ∈ fields, leaf ∈ leaves field.2 := by
  induction fields with
  | nil => simp [leavesFields]
  | cons field fields ih => rw [leavesFields_cons,List.mem_append,ih,List.exists_mem_cons_iff]

/-- The second value has the shape of the first but for texts of a kind. -/
inductive Agrees (Kind : Str → Prop) : Value → Value → Prop
  | same (value : Value) : Agrees Kind value value
  | text (value : Value) (text : Str) : Kind text → Agrees Kind value (.str text)
  | list (items items' : List Value) : items.length = items'.length →
      (∀ (i : Nat) (item item' : Value), items[i]? = some item → items'[i]? = some item' →
        Agrees Kind item item') →
      Agrees Kind (.list items) (.list items')
  | dict (fields fields' : List (Str × Value)) : fields.map Prod.fst = fields'.map Prod.fst →
      (∀ (i : Nat) (field field' : Str × Value), fields[i]? = some field →
        fields'[i]? = some field' → Agrees Kind field.2 field'.2) →
      Agrees Kind (.dict fields) (.dict fields')

theorem agrees_list {Kind : Str → Prop} {value : Value} {items' : List Value}
    (agrees : Agrees Kind value (.list items')) :
    ∃ items, value = .list items ∧ items.length = items'.length ∧
      ∀ (i : Nat) (item item' : Value), items[i]? = some item → items'[i]? = some item' →
      Agrees Kind item item' := by
  cases agrees with
  | same _ =>
    refine ⟨items',rfl,rfl,fun i item item' here there => ?_⟩
    rw [Option.some.inj (here.symm.trans there)]
    exact .same _
  | list items _ size each => exact ⟨items,rfl,size,each⟩

theorem agrees_dict {Kind : Str → Prop} {value : Value} {fields' : List (Str × Value)}
    (agrees : Agrees Kind value (.dict fields')) :
    ∃ fields, value = .dict fields ∧ fields.map Prod.fst = fields'.map Prod.fst ∧
      ∀ (i : Nat) (field field' : Str × Value), fields[i]? = some field →
      fields'[i]? = some field' →
        Agrees Kind field.2 field'.2 := by
  cases agrees with
  | same _ =>
    refine ⟨fields',rfl,rfl,fun i field field' here there => ?_⟩
    rw [Option.some.inj (here.symm.trans there)]
    exact .same _
  | dict fields _ names each => exact ⟨fields,rfl,names,each⟩

/-- If the texts of the first value are of the kind, so are those of the second. -/
theorem agrees_leaves {Kind : Str → Prop} {value value' : Value} (agrees : Agrees Kind value value')
    (kinds : ∀ text, .str text ∈ leaves value → Kind text) : ∀ text, .str text ∈ leaves value' →
    Kind text := by
  induction agrees with
  | same _ => exact kinds
  | text _ text kind =>
    intro other member
    rw [leaves,List.mem_singleton,Value.str.injEq] at member
    rwa [member]
  | list items items' size _ ih =>
    intro text member
    rw [leaves,mem_leavesItems] at member
    obtain ⟨item',found,inside⟩ := member
    obtain ⟨i,here⟩ := List.mem_iff_getElem?.mp found
    have bound : i < items.length := size ▸ (List.getElem?_eq_some_iff.mp here).1
    refine ih i items[i] item' (List.getElem?_eq_getElem bound) here (fun text within =>
      kinds text ?_) text inside
    rw [leaves,mem_leavesItems]
    exact ⟨_,List.getElem_mem _,within⟩
  | dict fields fields' names _ ih =>
    intro text member
    rw [leaves,mem_leavesFields] at member
    obtain ⟨field',found,inside⟩ := member
    obtain ⟨i,here⟩ := List.mem_iff_getElem?.mp found
    have size := congrArg List.length names
    rw [List.length_map,List.length_map] at size
    have bound : i < fields.length := size ▸ (List.getElem?_eq_some_iff.mp here).1
    refine ih i fields[i] field' (List.getElem?_eq_getElem bound) here (fun text within =>
      kinds text ?_) text inside
    rw [leaves,mem_leavesFields]
    exact ⟨_,List.getElem_mem _,within⟩

section Sound
variable (format : FloatFormat)

mutual
/-- The leaves of what can be read can be read. -/
theorem leaves_sound : (value : Value) → Sound format value →
    ∀ leaf ∈ leaves value, isScalar leaf = true ∧ Sound format leaf
  | .null, sound => by simp [leaves,isScalar,sound]
  | .bool _, sound => by simp [leaves,isScalar,sound]
  | .int _, sound => by simp [leaves,isScalar,sound]
  | .float _, sound => by simp [leaves,isScalar,sound]
  | .str _, sound => by simp [leaves,isScalar,sound]
  | .list items, sound => by
    rw [leaves]
    exact leavesItems_sound items sound
  | .dict fields, sound => by
    rw [leaves]
    exact leavesFields_sound fields sound
theorem leavesItems_sound : (items : List Value) → SoundItems format items →
    ∀ leaf ∈ leavesItems items, isScalar leaf = true ∧ Sound format leaf
  | [], _ => by simp [leavesItems]
  | item::items, sound => by
    rw [leavesItems,List.forall_mem_append]
    exact ⟨leaves_sound item sound.1,leavesItems_sound items sound.2⟩
theorem leavesFields_sound : (fields : List (Str × Value)) → SoundFields format fields →
    ∀ leaf ∈ leavesFields fields, isScalar leaf = true ∧ Sound format leaf
  | [], _ => by simp [leavesFields]
  | (_,value)::fields, sound => by
    rw [leavesFields,List.forall_mem_append]
    exact ⟨leaves_sound value sound.2.1,leavesFields_sound fields sound.2.2⟩
end

end Sound

theorem loads_dict_sound {ε : Type} (format : FloatFormat) (text : Str) (value : Value)
    (range : InRange text)
    (read : loads (ε := ε) format (fun pairs => .ok (Dict.ofPairs pairs)) text = .ok value) :
    Sound format value := by
  apply loads_good format _ _ text value range read
  constructor
  · intro text value rest read
    exact readScalar_value format text value rest read
  · exact fun text range => range
  · exact fun items each => (soundItems_iff format items).mpr each
  · rintro members fields hooked each
    cases hooked
    exact (soundFields_iff format _).mpr (fun field member => each field (Dict.mem_ofPairs member))

/-- In a leaf or in a key. -/
def InToken (style : Style) (window : Str) (leaves : List Value) (keys : List Str) : Prop :=
  (∃ leaf ∈ leaves, window <:+: dumps style leaf) ∨ ∃ key ∈ keys, window <:+: writeString style key

private theorem inToken_append (style : Style) (window : Str) (leaves leaves' : List Value)
    (keys keys' : List Str) :
    InToken style window (leaves ++ leaves') (keys ++ keys') ↔
      InToken style window leaves keys ∨ InToken style window leaves' keys' := by
  simp only [InToken,List.mem_append,or_and_right,exists_or]
  exact or_or_or_comm

private theorem inToken_key (style : Style) (window key : Str) (leaves : List Value)
    (keys : List Str) :
    InToken style window leaves (key::keys) ↔ window <:+: writeString style key ∨
    InToken style window leaves keys := by
  simp only [InToken,List.mem_cons,or_and_right,exists_or,exists_eq_left]
  exact or_left_comm

private theorem inToken_leaf (style : Style) (window : Str) (leaf : Value) :
    window <:+: dumps style leaf ↔ InToken style window [leaf] [] := by
  simp [InToken]

/-- The marks that stand between tokens. -/
def marks : Str := lit " ,:[]\x7b\x7d"

section Tokens
variable (style : Style) {window : Str} (filled : window ≠ [])
    (outside : ∀ mark ∈ marks, mark ∉ window)
include filled outside

private theorem infix_enclosed (opening closing : Nat) (text : Str) (opened : opening ∈ marks)
    (closed : closing ∈ marks) :
    window <:+: opening::text ++ [closing] ↔ window <:+: text := by
  rw [infix_divided filled (outside closing closed),← List.nil_append (opening::text),
    infix_divided filled (outside opening opened)]
  simp [filled]

private theorem infix_separated (first second separator : Str) (present : separator ≠ [])
    (mark : ∀ code ∈ separator, code ∈ marks) :
    window <:+: first ++ separator ++ second ↔ window <:+: first ∨ window <:+: second := by
  induction separator generalizing first with
  | nil => exact absurd rfl present
  | cons code separator ih =>
    obtain ⟨here,rest⟩ := List.forall_mem_cons.mp mark
    rw [List.append_assoc,List.cons_append,infix_divided filled (outside code here)]
    cases separator with
    | nil => rfl
    | cons code' separator =>
      have later := ih [] (List.cons_ne_nil _ _) rest
      rw [List.nil_append] at later
      rw [later]
      simp [filled]

omit filled outside in
private theorem separators_marks :
    (∀ code ∈ style.itemSeparator, code ∈ marks) ∧ (∀ code ∈ style.keySeparator, code ∈ marks) ∧
    style.itemSeparator ≠ [] ∧ style.keySeparator ≠ [] := by
  cases spaced : style.spaced <;> simp only [Style.itemSeparator,Style.keySeparator,spaced] <;>
    decide

mutual
/-- A stretch without marks stands in one token of the written value. -/
theorem infix_dumps : (value : Value) → (window <:+: dumps style value ↔
      InToken style window (leaves value) (keys value))
  | .null => inToken_leaf style window _
  | .bool _ => inToken_leaf style window _
  | .int _ => inToken_leaf style window _
  | .float _ => inToken_leaf style window _
  | .str _ => inToken_leaf style window _
  | .list items => by
    rw [dumps,infix_enclosed filled outside _ _ _ (by decide) (by decide),leaves,keys]
    exact infix_dumpItems items
  | .dict fields => by
    rw [dumps,infix_enclosed filled outside _ _ _ (by decide) (by decide),leaves,keys]
    exact infix_dumpFields fields
theorem infix_dumpItems : (items : List Value) →
    (window <:+: dumpItems style items ↔ InToken style window (leavesItems items) (keysItems items))
  | [] => by simp [dumpItems,leavesItems,keysItems,InToken,filled]
  | [item] => by
    rw [dumpItems,infix_dumps item,leavesItems,keysItems,leavesItems,keysItems,List.append_nil,
      List.append_nil]
  | item::next::items => by
    obtain ⟨mark,_,present,_⟩ := separators_marks style
    rw [dumpItems,infix_separated filled outside _ _ _ present mark,infix_dumps item,
      infix_dumpItems (next::items),leavesItems_cons item,keysItems_cons item,inToken_append]
theorem infix_dumpFields : (fields : List (Str × Value)) →
    (window <:+: dumpFields style fields ↔ InToken style window (leavesFields fields)
      (keysFields fields))
  | [] => by simp [dumpFields,leavesFields,keysFields,InToken,filled]
  | [(key,value)] => by
    obtain ⟨_,mark,_,present⟩ := separators_marks style
    rw [dumpFields,infix_separated filled outside _ _ _ present mark,infix_dumps value,leavesFields,
      keysFields,leavesFields,
      keysFields,List.append_nil,List.cons_append,List.append_nil,inToken_key]
  | (key,value)::next::fields => by
    obtain ⟨mark,mark',present,some'⟩ := separators_marks style
    rw [dumpFields,infix_separated filled outside _ _ _ present mark,
      infix_separated filled outside _ _ _ some' mark',
      infix_dumps value,infix_dumpFields (next::fields),leavesFields_cons key,keysFields_cons key,
      List.cons_append,inToken_key,inToken_append,or_assoc]
end

end Tokens

/-- No stretch with two minus signs and no letter stands in a leaf that is no string. -/
theorem scalar_apart (format : FloatFormat) (style : Style) {window : Str}
    (signs : 2 ≤ window.count minus) (outside : 101 ∉ window ∧ 69 ∉ window) (value : Value)
    (sound : Sound format value) (bare : ∀ text, value ≠ .str text)
    (scalar : isScalar value = true) : ¬ window <:+: dumps style value := by
  have few (text : Str) (count : text.count minus ≤ 1) : ¬ window <:+: text := by
    intro inside
    have := inside.sublist.count_le minus
    omega
  cases value with
  | null => exact few _ (by rw [dumps]; decide)
  | bool value => cases value <;> exact few _ (by rw [dumps]; decide)
  | int value => exact few _ (intText_minus value)
  | float text =>
    rcases sound with rfl | rfl | rfl | ⟨known,_⟩
    · exact few _ (by rw [dumps]; decide)
    · exact few _ (by rw [dumps]; decide)
    · exact few _ (by rw [dumps]; decide)
    · obtain ⟨mantissa,count,whole | ⟨letter,power,whole,known,count'⟩⟩ :=
        floatText_minus text known
      · exact few _ (whole ▸ count)
      · have filled : window ≠ [] := by
          rintro rfl
          contradiction
        have apart : letter ∉ window := by
          rcases known with rfl | rfl
          · exact outside.1
          · exact outside.2
        rw [dumps,whole,infix_divided filled apart]
        exact fun inside => inside.elim (few _ count) (few _ count')
  | str text => exact absurd rfl (bare text)
  | list items => contradiction
  | dict fields => contradiction

/-- Written as itself, and in no escape but as a digit. -/
def Bare (code : Nat) : Prop := 32 ≤ code ∧ code ∉ lit "\"\\bfnrtu"

/-- A control character that is written as its number. -/
def isNumbered (code : Nat) : Bool :=
  code < 32 && code != 10 && code != 13 && code != 9 && code != 8 && code != 12

/-- A stretch that comes about in writing: it begins in the digits of an escape. -/
def Completed (window text : Str) : Prop :=
  ∃ code digits behind, isNumbered code = true ∧ digits <:+ unicodeEscape code ∧ digits ≠ [] ∧
    window = digits ++ behind ∧ code::behind <:+: text

/-- A stretch that is longer than the front begins in it and goes on behind it, or lies behind it. -/
theorem infix_beyond {window : Str} (front back : Str) (long : front.length < window.length) :
    window <:+: front ++ back ↔ window <:+: back ∨
      ∃ digits behind, window = digits ++ behind ∧ digits ≠ [] ∧ digits <:+ front ∧
      behind <+: back := by
  induction front with
  | nil =>
    simp only [List.nil_append,List.suffix_nil]
    refine ⟨Or.inl,fun known => known.elim id ?_⟩
    rintro ⟨digits,_,_,filled,empty,_⟩
    exact absurd empty filled
  | cons code front ih =>
    rw [List.length_cons] at long
    rw [List.cons_append,List.infix_cons_iff,ih (by omega)]
    constructor
    · rintro (⟨rest,shape⟩ | inside | ⟨digits,behind,whole,filled,ends,starts⟩)
      · refine Or.inr ?_
        rw [← List.cons_append] at shape
        rcases List.append_eq_append_iff.mp shape with ⟨more,first,_⟩ | ⟨more,first,second⟩
        · have sizes := congrArg List.length first
          rw [List.length_append,List.length_cons] at sizes
          omega
        · exact ⟨code::front,more,first,List.cons_ne_nil _ _,List.suffix_refl _,rest,second.symm⟩
      · exact Or.inl inside
      · exact Or.inr ⟨digits,behind,whole,filled,ends.trans (List.suffix_cons _ _),starts⟩
    · rintro (inside | ⟨digits,behind,whole,filled,ends,starts⟩)
      · exact Or.inr (Or.inl inside)
      · rcases List.suffix_cons_iff.mp ends with rfl | ends
        · obtain ⟨rest,rfl⟩ := starts
          exact Or.inl ⟨rest,by simp [whole]⟩
        · exact Or.inr (Or.inr ⟨digits,behind,whole,filled,ends,starts⟩)

private theorem escapeCode_cases (code : Nat) :
    (isNumbered code = false ∧ escapeCode false code = [code]) ∨
    (isNumbered code = false ∧ ¬ Bare code ∧ ∃ letter, ¬ Bare letter ∧
      escapeCode false code = [backslash,letter]) ∨
    (isNumbered code = true ∧ ¬ Bare code ∧ escapeCode false code = unicodeEscape code) := by
  by_cases named : Named code
  · obtain ⟨letter,known,-,written⟩ := escapeCode_named false named
    have special : ¬ Bare letter := fun bare =>
      bare.2 ((by decide : ∀ code ∈ lit "\"\\bfnrt", code ∈ lit "\"\\bfnrtu") letter known)
    have plain : isNumbered code = false ∧ (code < 32 ∨ code ∈ lit "\"\\bfnrtu") := by
      rcases named with rfl | rfl | rfl | rfl | rfl | rfl | rfl <;> decide
    refine Or.inr (Or.inl ⟨plain.1,fun bare => ?_,letter,special,written⟩)
    rcases plain.2 with control | listed
    · exact Nat.not_le_of_lt control bare.1
    · exact bare.2 listed
  · rw [escapeCode_unnamed false named]
    simp only [Named,not_or] at named
    by_cases control : code < 32
    · refine Or.inr (Or.inr ⟨?_,fun bare => Nat.not_le_of_lt control bare.1,if_pos control⟩)
      simp [isNumbered,control,named]
    · refine Or.inl ⟨by simp [isNumbered,control],?_⟩
      rw [if_neg control]
      rfl

private theorem escapeCode_length (code : Nat) : (escapeCode false code).length ≤ 6 := by
  rcases escapeCode_cases code with ⟨_,written⟩ | ⟨_,_,_,_,written⟩ | ⟨_,_,written⟩ <;>
    simp [written,unicodeEscape]

/-- The start of a written string is that of the string where no code of it is escaped. -/
theorem prefix_escaped (window text : Str) (bare : ∀ code ∈ window, Bare code) :
    window <+: text.flatMap (escapeCode false) ↔ window <+: text := by
  induction window generalizing text with
  | nil => simp
  | cons code window ih =>
    obtain ⟨here,rest⟩ := List.forall_mem_cons.mp bare
    have slash : code ≠ backslash := fun same => here.2 (by subst same; decide)
    cases text with
    | nil => simp
    | cons first text =>
      rw [List.flatMap_cons]
      rcases escapeCode_cases first with ⟨_,written⟩ | ⟨_,special,_,_,written⟩ | ⟨_,special,written⟩
      · rw [written,List.cons_append,List.nil_append,List.cons_prefix_cons,
          List.cons_prefix_cons,ih text rest]
      all_goals
        have other : code ≠ first := fun same => special (same ▸ here)
        simp [written,unicodeEscape,List.cons_prefix_cons,slash,other]

/-- A stretch of a written string is one of the string, or comes about in writing. -/
theorem infix_escaped {window : Str} (long : 6 < window.length) (bare : ∀ code ∈ window, Bare code)
    (text : Str) :
    window <:+: text.flatMap (escapeCode false) ↔ window <:+: text ∨ Completed window text := by
  have filled : window ≠ [] := List.ne_nil_of_length_pos (by omega)
  induction text with
  | nil => simp [Completed,filled]
  | cons code text ih =>
    have short := escapeCode_length code
    rw [List.flatMap_cons,infix_beyond _ _ (Nat.lt_of_le_of_lt short long),List.infix_cons_iff]
    constructor
    · rintro (inside | ⟨digits,behind,whole,present,ends,starts⟩)
      · exact (ih.mp inside).imp Or.inr (fun ⟨code,digits,behind,known,ends,present,whole,inside⟩ =>
          ⟨code,digits,behind,known,ends,present,whole,inside.trans (List.suffix_cons _ _).isInfix⟩)
      · rw [whole] at bare
        have rest :=
          (prefix_escaped behind text (fun code member =>
            bare code (List.mem_append_right _ member))).mp starts
        rcases escapeCode_cases code with ⟨_,written⟩ | ⟨_,_,letter,special,
          written⟩ | ⟨known,_,written⟩
        · rw [written] at ends
          rcases List.suffix_cons_iff.mp ends with rfl | empty
          · exact Or.inl (Or.inl (by rw [whole]; exact List.cons_prefix_cons.mpr ⟨rfl,rest⟩))
          · exact absurd (List.suffix_nil.mp empty) present
        · rw [written] at ends
          refine absurd (bare letter (List.mem_append_left _ ?_)) special
          rcases List.suffix_cons_iff.mp ends with rfl | ends
          · simp
          · rcases List.suffix_cons_iff.mp ends with rfl | empty
            · simp
            · exact absurd (List.suffix_nil.mp empty) present
        · rw [written] at ends
          exact Or.inr ⟨code,digits,behind,known,ends,present,whole,
            (List.cons_prefix_cons.mpr ⟨rfl,rest⟩).isInfix⟩
    · rintro ((starts | inside) | ⟨other,digits,behind,known,ends,present,whole,inside⟩)
      · cases window with
        | nil => exact absurd rfl filled
        | cons first behind =>
          obtain ⟨rfl,rest⟩ := List.cons_prefix_cons.mp starts
          obtain ⟨here,bare⟩ := List.forall_mem_cons.mp bare
          rcases escapeCode_cases first with ⟨_,written⟩ | ⟨_,special,_⟩ | ⟨_,special,_⟩
          · refine Or.inr ⟨[first],behind,rfl,List.cons_ne_nil _ _,by rw [written],?_⟩
            exact (prefix_escaped behind text bare).mpr rest
          · exact absurd here special
          · exact absurd here special
      · exact Or.inl (ih.mpr (Or.inl inside))
      · rcases List.infix_cons_iff.mp inside with starts | inside
        · obtain ⟨rfl,rest⟩ := List.cons_prefix_cons.mp starts
          rw [whole] at bare
          refine Or.inr ⟨digits,behind,whole,present,?_,?_⟩
          · rcases escapeCode_cases other with ⟨plain,_⟩ | ⟨plain,_⟩ | ⟨_,_,written⟩
            · rw [plain] at known
              contradiction
            · rw [plain] at known
              contradiction
            · rw [written]
              exact ends
          · exact (prefix_escaped behind text (fun code member =>
              bare code (List.mem_append_right _ member))).mpr rest
        · exact Or.inl (ih.mpr (Or.inr ⟨other,digits,behind,known,ends,present,whole,inside⟩))

theorem infix_written {window : Str} (long : 6 < window.length) (bare : ∀ code ∈ window, Bare code)
    (text : Str) :
    window <:+: writeString compact text ↔ window <:+: text ∨ Completed window text := by
  have filled : window ≠ [] := List.ne_nil_of_length_pos (by omega)
  have unquoted : quote ∉ window := fun member => (bare quote member).2 (by decide)
  rw [writeString,infix_divided filled unquoted,← List.nil_append (quote::_),
    infix_divided filled unquoted]
  simp only [List.infix_nil,filled,false_or,or_false]
  exact infix_escaped long bare text

end QuilrMcp.Library.Json
