import QuilrMcp.Library.JsonLines

/-! Indented documents: `json.dumps` with an `indent`. Every item stands on a line of its own, behind as
many blanks as it is deep; the reader passes over all of them. -/
namespace QuilrMcp.Library.Json
open Text

/-- A new line, with the blanks of the level. -/
def pad (indent level : Nat) : Str := lineFeed::List.replicate (indent * level) 32

abbrev escaped : Style := ⟨true,true⟩

mutual
def dumpsIndent (indent level : Nat) : Value → Str
  | .list [] => lit "[]"
  | .list (item::items) => 91::pad indent (level + 1) ++ indentItems indent (level +
      1) (item::items) ++ pad indent level ++ [93]
  | .dict [] => lit "\x7b\x7d"
  | .dict (field::fields) => 123::pad indent (level + 1) ++ indentFields indent (level +
      1) (field::fields) ++ pad indent level ++ [125]
  | .null => dumps escaped .null
  | .bool value => dumps escaped (.bool value)
  | .int value => dumps escaped (.int value)
  | .float text => dumps escaped (.float text)
  | .str text => dumps escaped (.str text)
def indentItems (indent level : Nat) : List Value → Str
  | [] => []
  | [item] => dumpsIndent indent level item
  | item::next::items => dumpsIndent indent level item ++ 44::pad indent level ++
      indentItems indent level (next::items)
def indentFields (indent level : Nat) : List (Str × Value) → Str
  | [] => []
  | [(key,value)] => writeString escaped key ++ lit ": " ++ dumpsIndent indent level value
  | (key,value)::next::fields => writeString escaped key ++ lit ": " ++
      dumpsIndent indent level value ++ 44::pad indent level ++
      indentFields indent level (next::fields)
end

example : dumpsIndent 2 0 (.dict [(lit "a",.list [.int 1,.null]),(lit "b",.dict [])]) =
    lit "\x7b\n  \"a\": [\n    1,\n    null\n  ],\n  \"b\": \x7b\x7d\n\x7d" := by decide +kernel

theorem skipSpace_solid {code : Nat} (solid : isSpace code = false) (rest : Str) :
    skipSpace (code::rest) = code::rest :=
  List.dropWhile_cons_of_neg (by simp [solid])

theorem skipSpace_pad (indent level : Nat) {code : Nat} (solid : isSpace code = false)
    (rest : Str) :
    skipSpace (pad indent level ++ code::rest) = code::rest := by
  have blank : ∀ blank ∈ pad indent level, isSpace blank = true := by
    refine List.forall_mem_cons.mpr ⟨rfl,fun blank member => ?_⟩
    rw [List.eq_of_mem_replicate member]
    rfl
  rw [skipSpace,List.dropWhile_append_of_pos blank]
  exact skipSpace_solid solid rest

theorem delimited_pad (indent level : Nat) (rest : Str) : Delimited (pad indent level ++ rest) :=
  Delimited.cons _ (Or.inr (Or.inr (Or.inr rfl)))

section RoundTrip
variable {ε : Type} {format : FloatFormat}
    {hook : List (Str × Value) → Except ε (List (Str × Value))}

theorem dumpsIndent_head (indent level : Nat) (value : Value) (sound : Sound format value) :
    ∃ code rest, dumpsIndent indent level value = code::rest ∧ isSpace code = false ∧ code ≠ 93 ∧
    code ≠ 125 ∧ code < 128 := by
  have plain (scalar : Value) (sound : Sound format scalar)
    (same : dumpsIndent indent level scalar = dumps escaped scalar) :
      ∃ code rest, dumpsIndent indent level scalar = code::rest ∧ isSpace code = false ∧ code ≠ 93 ∧
      code ≠ 125 ∧ code < 128 := by
    obtain ⟨code,rest,shape,head⟩ := dumps_head format escaped scalar sound
    exact ⟨code,rest,by rw [same,shape],head⟩
  cases value with
  | null => exact plain .null sound (by rw [dumpsIndent])
  | bool value => exact plain (.bool value) sound (by rw [dumpsIndent])
  | int value => exact plain (.int value) sound (by rw [dumpsIndent])
  | float text => exact plain (.float text) sound (by rw [dumpsIndent])
  | str text => exact plain (.str text) sound (by rw [dumpsIndent])
  | list items =>
    cases items <;> exact ⟨91,_,by rw [dumpsIndent]; rfl,rfl,by decide,by decide,by decide⟩
  | dict fields =>
    cases fields <;> exact ⟨123,_,by rw [dumpsIndent]; rfl,rfl,by decide,by decide,by decide⟩

theorem indentItems_head (indent level : Nat) (item : Value) (items : List Value)
    (sound : SoundItems format (item::items)) :
    ∃ code rest, indentItems indent level (item::items) = code::rest ∧ isSpace code = false ∧
    code ≠ 93 ∧ code ≠ 125 := by
  obtain ⟨code,rest,shape,solid,unclosed,unclosed',-⟩ := dumpsIndent_head indent level item sound.1
  cases items with
  | nil => exact ⟨code,rest,by rw [indentItems,shape],solid,unclosed,unclosed'⟩
  | cons next items => exact ⟨code,_,by rw [indentItems,shape]; rfl,solid,unclosed,unclosed'⟩

private theorem skipSpace_indent (indent level : Nat) (value : Value) (sound : Sound format value)
    (rest : Str) :
    skipSpace (32::(dumpsIndent indent level value ++ rest)) = dumpsIndent indent level value ++
      rest := by
  obtain ⟨code,more,shape,solid,-⟩ := dumpsIndent_head indent level value sound
  have blank : skipSpace (32::(dumpsIndent indent level value ++ rest)) =
    skipSpace (dumpsIndent indent level value ++ rest) :=
    List.dropWhile_cons_of_pos rfl
  rw [blank,shape]
  exact skipSpace_solid solid _

private theorem scan_key {key : Str} (range : ∀ code ∈ key, code < 0x110000)
    (unpaired : PairFree key) (rest : Str) :
    scanString (ε := ε) (key.flatMap (escapeCode true) ++ quote::rest) = .ok (key,rest) := by
  rw [scanString_written escaped key range rest]
  simp [readBack,joinSurrogates_of_pairFree key unpaired]

theorem indentFields_head (indent level : Nat) (field : Str × Value) (fields : List (Str × Value)) :
    ∃ rest, indentFields indent level (field::fields) = quote::rest := by
  cases fields <;> exact ⟨_,by rw [indentFields,writeString]; rfl⟩

private theorem readValue_plain {indent level : Nat} {value : Value}
    (same : dumpsIndent indent level value = dumps escaped value) (plain : Plain hook format value)
    (fuel : Nat) (enough : (dumpsIndent indent level value).length ≤ fuel) (rest : Str)
    (delimited : Delimited rest) :
    readValue format hook fuel (dumpsIndent indent level value ++ rest) = .ok (value,rest) := by
  rw [same] at enough ⊢
  rw [readValue_dumps format hook escaped value plain.sound fuel enough rest delimited,
    rebuild_unpaired hook escaped.ensureAscii value plain.settled plain.unpaired]
  rfl

mutual
/-- An indented value is read in front of a delimiter. The length of its text pays for the fuel. -/
theorem readValue_indent (indent level : Nat) :
    (value : Value) → Plain hook format value → (fuel : Nat) →
    (dumpsIndent indent level value).length ≤ fuel → (rest : Str) → Delimited rest →
    readValue format hook fuel (dumpsIndent indent level value ++ rest) = .ok (value,rest)
  | .null, plain, fuel, enough, rest, delimited =>
    readValue_plain (by rw [dumpsIndent]) plain fuel enough rest delimited
  | .bool _, plain, fuel, enough, rest, delimited =>
    readValue_plain (by rw [dumpsIndent]) plain fuel enough rest delimited
  | .int _, plain, fuel, enough, rest, delimited =>
    readValue_plain (by rw [dumpsIndent]) plain fuel enough rest delimited
  | .float _, plain, fuel, enough, rest, delimited =>
    readValue_plain (by rw [dumpsIndent]) plain fuel enough rest delimited
  | .str _, plain, fuel, enough, rest, delimited =>
    readValue_plain (by rw [dumpsIndent]) plain fuel enough rest delimited
  | .list [], _, fuel, enough, rest, _ => by
    obtain ⟨fuel,rfl⟩ :=
      Nat.exists_eq_add_of_le' (Nat.le_trans (by simp [dumpsIndent,lit] : 1 ≤ _) enough)
    rw [dumpsIndent]
    exact readValue_iff.mpr (.emptyList (skipSpace_solid rfl rest))
  | .list (item::items), plain, fuel, enough, rest, _ => by
    obtain ⟨fuel,rfl⟩ :=
      Nat.exists_eq_add_of_le' (Nat.le_trans (by simp [dumpsIndent] : 1 ≤ _) enough)
    obtain ⟨code,more,shape,solid,unclosed,-⟩ :=
      indentItems_head indent (level + 1) item items plain.sound
    rw [dumpsIndent] at enough ⊢
    simp only [List.length_append,List.length_cons] at enough
    have inner := readItems_indent indent (level + 1) item items plain fuel (by omega)
      (pad indent level ++ 93::rest) rest
      (delimited_pad indent level _) (skipSpace_pad indent level rfl rest)
    have start : skipSpace (pad indent (level + 1) ++ indentItems indent (level +
      1) (item::items) ++
        (pad indent level ++ 93::rest)) = indentItems indent (level + 1) (item::items) ++
        (pad indent level ++ 93::rest) := by
      rw [shape,List.append_assoc]
      exact skipSpace_pad indent (level + 1) solid _
    have step : ValueStep format hook fuel (91::(pad indent (level + 1) ++
      indentItems indent (level + 1) (item::items) ++
        (pad indent level ++ 93::rest))) (.list (item::items)) rest := by
      apply ValueStep.list
      · rw [start,shape,List.cons_append,List.head?_cons,ne_eq,Option.some.injEq]
        exact unclosed
      · rw [start]
        exact inner
    simpa using readValue_iff.mpr step
  | .dict [], plain, fuel, enough, rest, _ => by
    obtain ⟨fuel,rfl⟩ :=
      Nat.exists_eq_add_of_le' (Nat.le_trans (by simp [dumpsIndent,lit] : 1 ≤ _) enough)
    rw [dumpsIndent]
    exact readValue_iff.mpr (.emptyDict (skipSpace_solid rfl rest) plain.settled.1)
  | .dict (field::fields), plain, fuel, enough, rest, _ => by
    obtain ⟨fuel,rfl⟩ :=
      Nat.exists_eq_add_of_le' (Nat.le_trans (by simp [dumpsIndent] : 1 ≤ _) enough)
    obtain ⟨more,shape⟩ := indentFields_head indent (level + 1) field fields
    rw [dumpsIndent] at enough ⊢
    simp only [List.length_append,List.length_cons] at enough
    have inner := readMembers_indent indent (level + 1) field fields plain.sound plain.settled.2
      plain.unpaired fuel (by omega)
      (pad indent level ++ 125::rest) rest (delimited_pad indent level _)
      (skipSpace_pad indent level rfl rest)
    have start : skipSpace (pad indent (level + 1) ++ indentFields indent (level +
      1) (field::fields) ++
        (pad indent level ++ 125::rest)) = indentFields indent (level + 1) (field::fields) ++
        (pad indent level ++ 125::rest) := by
      rw [shape,List.append_assoc]
      exact skipSpace_pad indent (level + 1) rfl _
    have step : ValueStep format hook fuel (123::(pad indent (level + 1) ++
      indentFields indent (level + 1) (field::fields) ++
        (pad indent level ++ 125::rest))) (.dict (field::fields)) rest := by
      refine ValueStep.dict ?_ ?_ plain.settled.1
      · rw [start,shape,List.cons_append,List.head?_cons,ne_eq,Option.some.injEq]
        decide
      · rw [start]
        exact inner
    simpa using readValue_iff.mpr step
termination_by _ _ fuel => fuel
/-- The items up to the bracket, whatever blanks stand before it. -/
theorem readItems_indent (indent level : Nat) : (item : Value) → (items : List Value) →
    Plain hook format (.list (item::items)) → (fuel : Nat) →
    (indentItems indent level (item::items)).length + 1 ≤ fuel →
    (tail rest : Str) → Delimited tail → skipSpace tail = 93::rest →
    readItems format hook fuel (indentItems indent level (item::items) ++ tail) =
      .ok (item::items,rest)
  | item, [], plain, fuel, enough, tail, rest, delimited, closed => by
    obtain ⟨fuel,rfl⟩ := Nat.exists_eq_add_of_le' (Nat.le_trans (Nat.le_add_left 1 _) enough)
    rw [indentItems] at enough ⊢
    have first := readValue_indent indent level item ⟨plain.sound.1,plain.settled.1,
      plain.unpaired.1⟩ fuel (by omega) tail delimited
    exact readItems_iff.mpr (.last first closed)
  | item, next::items, plain, fuel, enough, tail, rest, delimited, closed => by
    obtain ⟨fuel,rfl⟩ := Nat.exists_eq_add_of_le' (Nat.le_trans (Nat.le_add_left 1 _) enough)
    rw [indentItems] at enough ⊢
    simp only [List.length_append,List.length_cons] at enough
    have first := readValue_indent indent level item ⟨plain.sound.1,plain.settled.1,
      plain.unpaired.1⟩ fuel (by omega)
      (44::(pad indent level ++ (indentItems indent level (next::items) ++ tail)))
      (Delimited.cons _ (Or.inl rfl))
    have later := readItems_indent indent level next items ⟨plain.sound.2,plain.settled.2,
      plain.unpaired.2⟩ fuel (by omega)
      tail rest delimited closed
    obtain ⟨code,more,shape,solid,unclosed,-⟩ :=
      indentItems_head indent level next items plain.sound.2
    have start : skipSpace (pad indent level ++ (indentItems indent level (next::items) ++ tail)) =
        indentItems indent level (next::items) ++ tail := by
      rw [shape]
      exact skipSpace_pad indent level solid _
    have step : ItemsStep format hook fuel (dumpsIndent indent level item ++
        44::(pad indent level ++ (indentItems indent level (next::items) ++ tail)))
          (item::next::items) rest := by
      refine .more first (skipSpace_solid rfl _) ?_ ?_
      · rw [start,shape,List.cons_append,List.head?_cons,ne_eq,Option.some.injEq]
        exact unclosed
      · rw [start]
        exact later
    simpa using readItems_iff.mpr step
termination_by _ _ _ fuel => fuel
theorem readMembers_indent (indent level : Nat) :
    (field : Str × Value) → (fields : List (Str × Value)) →
    SoundFields format (field::fields) → SettledFields hook (field::fields) →
    UnpairedFields (field::fields) → (fuel : Nat) →
    (indentFields indent level (field::fields)).length + 1 ≤ fuel → (tail rest : Str) →
    Delimited tail →
    skipSpace tail = 125::rest →
    readMembers format hook fuel (indentFields indent level (field::fields) ++ tail) =
      .ok (field::fields,rest)
  | (key,value), [], sound, settled, unpaired, fuel, enough, tail, rest, delimited, closed => by
    obtain ⟨fuel,rfl⟩ := Nat.exists_eq_add_of_le' (Nat.le_trans (Nat.le_add_left 1 _) enough)
    rw [indentFields] at enough ⊢
    simp only [List.length_append] at enough
    have first := readValue_indent indent level value ⟨sound.2.1,settled.1,unpaired.2.1⟩ fuel
      (by omega) tail delimited
    have step : MembersStep format hook fuel (quote::(key.flatMap (escapeCode true) ++
      quote::(58::32::
        (dumpsIndent indent level value ++ tail)))) [(key,value)] rest := by
      refine .last (scan_key sound.1 unpaired.1 _) (skipSpace_solid rfl _) ?_ closed
      rw [skipSpace_indent indent level value sound.2.1]
      exact first
    simpa [writeString,lit] using readMembers_iff.mpr step
  | (key,value), next::fields, sound, settled, unpaired, fuel, enough, tail, rest,
      delimited, closed => by
    obtain ⟨fuel,rfl⟩ := Nat.exists_eq_add_of_le' (Nat.le_trans (Nat.le_add_left 1 _) enough)
    rw [indentFields] at enough ⊢
    simp only [List.length_append,List.length_cons] at enough
    have first := readValue_indent indent level value ⟨sound.2.1,settled.1,
      unpaired.2.1⟩ fuel (by omega)
      (44::(pad indent level ++ (indentFields indent level (next::fields) ++ tail)))
      (Delimited.cons _ (Or.inl rfl))
    rw [← skipSpace_indent indent level value sound.2.1] at first
    have later := readMembers_indent indent level next fields sound.2.2 settled.2 unpaired.2.2
      fuel (by omega)
      tail rest delimited closed
    obtain ⟨more,shape⟩ := indentFields_head indent level next fields
    have start : skipSpace (pad indent level ++
      (indentFields indent level (next::fields) ++ tail)) =
        indentFields indent level (next::fields) ++ tail := by
      rw [shape]
      exact skipSpace_pad indent level rfl _
    have step : MembersStep format hook fuel (quote::(key.flatMap (escapeCode true) ++
      quote::(58::32::
        (dumpsIndent indent level value ++
          44::(pad indent level ++ (indentFields indent level (next::fields) ++ tail))))))
        ((key,value)::next::fields) rest := by
      refine .more (scan_key sound.1 unpaired.1 _) (skipSpace_solid rfl _) first
        (skipSpace_solid rfl _) ?_ ?_
      · rw [start,shape,List.cons_append,List.head?_cons,ne_eq,Option.some.injEq]
        decide
      · rw [start]
        exact later
    simpa [writeString,lit] using readMembers_iff.mpr step
termination_by _ _ _ _ _ fuel => fuel
end

/-- An indented document is read back as the value it was written for. -/
theorem loads_indent (indent : Nat) {value : Value} (plain : Plain hook format value) :
    loads format hook (dumpsIndent indent 0 value) = .ok value := by
  obtain ⟨code,more,shape,solid,-,-,ascii⟩ := dumpsIndent_head indent 0 value plain.sound
  have read := readValue_indent indent 0 value plain (2 * (dumpsIndent indent 0 value).length +
    2) (by omega) []
    (by intro code member; cases member)
  have start : skipSpace (dumpsIndent indent 0 value) = dumpsIndent indent 0 value := by
    rw [shape]
    exact skipSpace_solid solid more
  have unmarked : (dumpsIndent indent 0 value).head? ≠ some 0xFEFF := by
    rw [shape,List.head?_cons,ne_eq,Option.some.injEq]
    omega
  rw [List.append_nil] at read
  rw [loads,if_neg unmarked,decode,start,read]
  rfl

end RoundTrip

end QuilrMcp.Library.Json
